import Mathlib.Order.Bounds.Basic
import Stencil.Expr.SyntaxError
import Stencil.Proofs.Bytes

/-! The ending of a text that fits in a number of bytes.

In the bytes of a text the search for it goes on from the first offset that leaves few enough
of them to the next one at which a character begins. A character has at most four bytes, so
that is never far, and what is cut there is the longest ending that fits. Messages about the
text of an expression show such an ending.
-/

set_option autoImplicit false

namespace Stencil

namespace Text

/-! Beginnings that fit -/

theorem fitting_prefix (budget : Nat) (text : List Char) : fitting budget text <+: text := by
  fun_induction fitting budget text with
  | case1 => exact List.prefix_rfl
  | case2 budget c rest fits ih => exact List.cons_prefix_cons.2 ⟨rfl, ih⟩
  | case3 => exact List.nil_prefix

theorem byteSize_fitting_le (budget : Nat) (text : List Char) :
    byteSize (fitting budget text) ≤ budget := by
  fun_induction fitting budget text with
  | case1 => exact Nat.zero_le _
  | case2 budget c rest fits ih =>
      rw [byteSize_cons]
      omega
  | case3 => exact Nat.zero_le _

theorem prefix_fitting {budget : Nat} {part text : List Char} (isPrefix : part <+: text)
    (fits : byteSize part ≤ budget) : part <+: fitting budget text := by
  induction part generalizing budget text with
  | nil => exact List.nil_prefix
  | cons c part ih =>
      obtain ⟨rest, rfl⟩ := isPrefix
      rw [byteSize_cons] at fits
      rw [List.cons_append, fitting, if_pos (by omega)]
      exact List.cons_prefix_cons.2 ⟨rfl, ih (List.prefix_append part rest) (by omega)⟩

/-- What a longer text leaves of the budget is not enough for one more character. -/
theorem lt_byteSize_fitting_add_four {budget : Nat} {text : List Char}
    (longer : budget < byteSize text) : budget < byteSize (fitting budget text) + 4 := by
  fun_induction fitting budget text with
  | case1 => exact absurd longer (Nat.not_lt_zero _)
  | case2 budget c rest fits ih =>
      rw [byteSize_cons] at longer ⊢
      have later := ih (by omega)
      omega
  | case3 budget c rest large =>
      have small := c.utf8Size_le_four
      rw [byteSize_nil]
      omega

/-! Endings that fit -/

/-- Of the endings of the text that have at most so many bytes, the part is the longest. -/
structure LongestEnding (budget : Nat) (text part : List Char) : Prop where
  suffix : part <:+ text
  fits : byteSize part ≤ budget
  longest : ∀ other, other <:+ text → byteSize other ≤ budget → other <:+ part

theorem longestEnding_ending (budget : Nat) (text : List Char) :
    LongestEnding budget text (ending budget text) where
  suffix := List.reverse_prefix.1 (by simpa [ending] using fitting_prefix budget text.reverse)
  fits := by simpa [ending] using byteSize_fitting_le budget text.reverse
  longest other isSuffix fits := by
    have found := prefix_fitting (List.reverse_prefix.2 isSuffix) (by simpa using fits)
    exact List.reverse_prefix.1 (by simpa [ending] using found)

theorem ending_of_byteSize_le {budget : Nat} {text : List Char} (fits : byteSize text ≤ budget) :
    ending budget text = text := by
  have cut := longestEnding_ending budget text
  exact cut.suffix.eq_of_length_le (cut.longest text List.suffix_rfl fits).length_le

theorem ending_ending (budget : Nat) (text : List Char) :
    ending budget (ending budget text) = ending budget text :=
  ending_of_byteSize_le (longestEnding_ending budget text).fits

theorem lt_byteSize_ending_add_four {budget : Nat} {text : List Char}
    (longer : budget < byteSize text) : budget < byteSize (ending budget text) + 4 := by
  simpa [ending] using @lt_byteSize_fitting_add_four budget text.reverse (by simpa using longer)

/-! Bytes at which characters begin -/

@[simp] theorem bytes_cons (c : Char) (rest : List Char) :
    bytes (c :: rest) = bytesOf c ++ bytes rest :=
  List.flatMap_cons

@[simp] theorem length_bytesOf (c : Char) : (bytesOf c).length = c.utf8Size :=
  String.length_utf8EncodeChar c

@[simp] theorem length_bytes (text : List Char) : (bytes text).length = byteSize text := by
  induction text with
  | nil => rfl
  | cons c rest ih => rw [bytes_cons, List.length_append, length_bytesOf, ih, byteSize_cons]

/-- The byte at the offset is the first of a character, or the bytes end there. -/
def beginsAt (bytes : List UInt8) (offset : Nat) : Bool :=
  match bytes[offset]? with
  | some byte => decide byte.IsUTF8FirstByte
  | none => offset == bytes.length

theorem beginsAt_of_length_lt {bytes : List UInt8} {offset : Nat} (past : bytes.length < offset) :
    beginsAt bytes offset = false := by
  rw [beginsAt, List.getElem?_eq_none past.le]
  exact beq_false_of_ne past.ne'

theorem beginsAt_append (first second : List UInt8) (offset : Nat) :
    beginsAt (first ++ second) (first.length + offset) = beginsAt second offset := by
  rw [beginsAt, beginsAt, List.getElem?_append_right (Nat.le_add_right _ _),
    Nat.add_sub_cancel_left, List.length_append]
  cases second[offset]? with
  | some byte => rfl
  | none => simp

/-- No byte of a character but the first begins one. -/
theorem beginsAt_bytesOf_append {c : Char} {offset : Nat} (inside : offset < c.utf8Size)
    (more : List UInt8) : beginsAt (bytesOf c ++ more) offset = true ↔ offset = 0 := by
  have within : offset < (bytesOf c).length := by rwa [length_bytesOf]
  rw [beginsAt, List.getElem?_append_left within, List.getElem?_eq_getElem within]
  exact decide_eq_true_iff.trans UInt8.isUTF8FirstByte_getElem_utf8EncodeChar

theorem beginsAt_bytes_iff {text : List Char} {offset : Nat} :
    beginsAt (bytes text) offset = true ↔ IsBoundary text offset := by
  induction text generalizing offset with
  | nil =>
      constructor
      · intro begins
        obtain rfl : offset = 0 := by simpa [beginsAt, bytes] using begins
        exact isBoundary_append [] []
      · rintro ⟨before, after, whole, rfl⟩
        obtain ⟨rfl, rfl⟩ := List.append_eq_nil_iff.1 whole
        rfl
  | cons c rest ih =>
      rw [bytes_cons]
      by_cases inside : offset < c.utf8Size
      · rw [beginsAt_bytesOf_append inside]
        constructor
        · rintro rfl
          exact isBoundary_append [] (c :: rest)
        · intro boundary
          by_contra later
          have above : byteSize [] < offset := Nat.pos_of_ne_zero later
          exact not_isBoundary_inside above (by simpa using inside) boundary
      · obtain ⟨more, rfl⟩ := Nat.exists_eq_add_of_le (Nat.not_lt.1 inside)
        have shifted := beginsAt_append (bytesOf c) (bytes rest) more
        rw [length_bytesOf] at shifted
        rw [shifted, ih, isBoundary_cons_iff]

/-! The search for a boundary -/

/-- The first offset from the given one on at which a character begins or the bytes end; none
when the search has left the bytes, where nothing stops it. -/
def boundaryFrom? (bytes : List UInt8) (offset : Nat) : Option Nat :=
  if beginsAt bytes offset then some offset
  else if offset < bytes.length then boundaryFrom? bytes (offset + 1)
  else none
termination_by bytes.length - offset

theorem boundaryFrom?_eq_some_iff {bytes : List UInt8} {offset start : Nat} :
    boundaryFrom? bytes offset = some start ↔
      IsLeast {start | offset ≤ start ∧ beginsAt bytes start = true} start := by
  fun_induction boundaryFrom? bytes offset with
  | case1 offset begins =>
      have least : IsLeast {start | offset ≤ start ∧ beginsAt bytes start = true} offset :=
        ⟨⟨le_rfl, begins⟩, fun _ other => other.1⟩
      constructor
      · intro same
        cases same
        exact least
      · intro other
        exact congrArg some (least.unique other)
  | case2 offset inside below ih =>
      -- A step forward passes over no boundary.
      have same : {start | offset ≤ start ∧ beginsAt bytes start = true} =
          {start | offset + 1 ≤ start ∧ beginsAt bytes start = true} := by
        ext start
        refine and_congr_left fun begins => ?_
        have other : offset ≠ start := by
          rintro rfl
          exact inside begins
        omega
      rw [ih, same]
  | case3 offset inside past =>
      refine iff_of_false (by simp) fun least => ?_
      obtain ⟨later, begins⟩ := least.1
      rcases later.eq_or_lt with rfl | later
      · exact inside begins
      · rw [beginsAt_of_length_lt (by omega)] at begins
        cases begins

/-- A text of at most so many bytes, or the ending of a longer one that begins at the first
boundary with no more bytes behind it; none when the search leaves the text or stops inside a
character. -/
def cutEnding? (budget : Nat) (text : List Char) : Option (List Char) :=
  if budget < (bytes text).length then
    (boundaryFrom? (bytes text) ((bytes text).length - budget)).bind fun start =>
      fromOffset? start text
  else some text

section

variable (budget : Nat) (text : List Char)

/-- The longest ending that fits begins at the first boundary that leaves few enough bytes. -/
theorem isLeast_ending : IsLeast {start | byteSize text - budget ≤ start ∧ IsBoundary text start}
    (byteSize text - byteSize (ending budget text)) := by
  have cut := longestEnding_ending budget text
  have fits := cut.fits
  obtain ⟨before, whole⟩ := cut.suffix
  have size := byteSize_of_append whole
  refine ⟨⟨by omega, before, _, whole, by omega⟩, ?_⟩
  rintro _ ⟨room, front, back, same, rfl⟩
  have sizes := byteSize_of_append same
  have shorter := byteSize_le_of_suffix (cut.longest back ⟨front, same⟩ (by omega))
  omega

theorem boundaryFrom?_ending : boundaryFrom? (bytes text) (byteSize text - budget) =
    some (byteSize text - byteSize (ending budget text)) := by
  rw [boundaryFrom?_eq_some_iff]
  simpa only [beginsAt_bytes_iff] using isLeast_ending budget text

theorem fromOffset?_ending : fromOffset? (byteSize text - byteSize (ending budget text)) text =
    some (ending budget text) := by
  obtain ⟨before, whole⟩ := (longestEnding_ending budget text).suffix
  have size := byteSize_of_append whole
  have start : byteSize text - byteSize (ending budget text) = byteSize before := by omega
  rw [start]
  conv => lhs; rw [← whole]
  exact fromOffset?_append before _

theorem cutEnding?_eq : cutEnding? budget text = some (ending budget text) := by
  rw [cutEnding?, length_bytes]
  split
  · rw [boundaryFrom?_ending, Option.bind_some, fromOffset?_ending]
  · rename_i short
    rw [ending_of_byteSize_le (Nat.not_lt.1 short)]

end

end Text

namespace SyntaxError

open Text (byteSize bytes ending LongestEnding boundaryFrom? cutEnding? fromOffset?)

/-- The message with the text near the fault cut by the search; none when that fails. -/
def message? (error : SyntaxError) : Option String :=
  (cutEnding? 32 error.near.toList).map fun shown =>
    error.fault.text ++ " near \"" ++ String.ofList shown ++ "\""

theorem message?_eq (error : SyntaxError) : error.message? = some error.message := by
  rw [message?, Text.cutEnding?_eq]
  rfl

/-- A text that was cut before is shown as if it had not been. -/
theorem message_ending (fault : SyntaxFault) (near : String) :
    message ⟨fault, String.ofList (ending 32 near.toList)⟩ = message ⟨fault, near⟩ := by
  simp only [message, String.toList_ofList, Text.ending_ending]

/-- Every fault has a message. It shows the text near the fault if that has at most 32 bytes,
and else the longest ending of it that has. Such an ending has at least 29 bytes, and the
search for where it begins stops inside the text after at most three steps. A text that was
cut before is cut no further. -/
theorem message_shows_longestEnding (fault : SyntaxFault) (near : String) :
    message? ⟨fault, near⟩ = some (message ⟨fault, near⟩) ∧
    message ⟨fault, near⟩ =
      fault.text ++ " near \"" ++ String.ofList (ending 32 near.toList) ++ "\"" ∧
    (byteSize near.toList ≤ 32 → ending 32 near.toList = near.toList) ∧
    (32 < byteSize near.toList →
      LongestEnding 32 near.toList (ending 32 near.toList) ∧
      29 ≤ byteSize (ending 32 near.toList) ∧ byteSize (ending 32 near.toList) ≤ 32 ∧
      ∃ start, boundaryFrom? (bytes near.toList) (byteSize near.toList - 32) = some start ∧
        start ≤ byteSize near.toList - 32 + 3 ∧ start < byteSize near.toList ∧
        fromOffset? start near.toList = some (ending 32 near.toList)) ∧
    message ⟨fault, String.ofList (ending 32 near.toList)⟩ = message ⟨fault, near⟩ := by
  refine ⟨message?_eq _, rfl, Text.ending_of_byteSize_le, fun longer => ?_,
    message_ending fault near⟩
  have cut := Text.longestEnding_ending 32 near.toList
  have fits := cut.fits
  have filled := Text.lt_byteSize_ending_add_four longer
  refine ⟨cut, by omega, fits, _, Text.boundaryFrom?_ending 32 near.toList, by omega, by omega, ?_⟩
  exact Text.fromOffset?_ending 32 near.toList

/-- The 32nd byte from the end is the second of four that are one character. -/
theorem message_shows_longestEnding_clef :
    32 < byteSize "𝄞0123456789abcdefghijklmnopqrs".toList ∧
      message? ⟨.unterminatedString, "𝄞0123456789abcdefghijklmnopqrs"⟩ =
        some "unterminated string near \"0123456789abcdefghijklmnopqrs\"" ∧
      byteSize (ending 32 "𝄞0123456789abcdefghijklmnopqrs".toList) = 29 ∧
      boundaryFrom? (bytes "𝄞0123456789abcdefghijklmnopqrs".toList) 1 = some 4 := by
  have longer : 32 < byteSize "𝄞0123456789abcdefghijklmnopqrs".toList := by decide
  have shorter : byteSize (ending 32 "𝄞0123456789abcdefghijklmnopqrs".toList) = 29 := by decide
  obtain ⟨built, -, -, cut, -⟩ :=
    message_shows_longestEnding .unterminatedString "𝄞0123456789abcdefghijklmnopqrs"
  obtain ⟨-, -, -, start, found, -, -, rest⟩ := cut longer
  obtain ⟨before, whole, rfl⟩ := Text.append_of_fromOffset? rest
  have sizes := Text.byteSize_of_append whole
  rw [shorter] at sizes
  have passed : byteSize before = 4 := (Nat.add_right_cancel sizes).symm
  refine ⟨longer, built.trans ?_, shorter, ?_⟩
  · decide
  · rwa [passed] at found

end SyntaxError

end Stencil
