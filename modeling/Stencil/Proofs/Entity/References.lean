import Mathlib
import Stencil.Proofs.Entity
import Stencil.Proofs.Token.Identifier

/-! Texts with references of every kind in them.

A text is cut at its ampersands into runs without one and references, known or not. Each
part decodes by itself, whatever stands beside it, and what it decodes to is not read again.
-/

set_option autoImplicit false

namespace Stencil

namespace Text

/-- The hexadecimal digits of a number, in either case and after any zeros. -/
def HexDigits (digits : List Char) (code : Nat) : Prop :=
  ∃ zeros, digits.map Char.toLower = List.replicate zeros '0' ++ Nat.toDigits 16 code

theorem hexValue_of_toLower {c : Char} {d : Nat} (small : d < 16) (same : c.toLower = d.digitChar) :
    isHexDigit c = true ∧ hexValue c = d := by
  have ascii : c.toNat < 128 := by
    by_cases upper : c.isUpper = true
    · exact toNat_lt_of_isAlpha (by simp [Char.isAlpha, upper])
    · rw [Char.toLower_eq_of_not_isUpper upper] at same
      subst same
      exact (by decide : ∀ d < 16, d.digitChar.toNat < 128) d small
  -- So few characters can be tried one by one.
  have all : ∀ n < 128, ∀ d < 16, (Char.ofNat n).toLower = d.digitChar →
      isHexDigit (Char.ofNat n) = true ∧ hexValue (Char.ofNat n) = d := by
    decide +kernel
  have here := all c.toNat ascii d small
  rw [Char.ofNat_toNat] at here
  exact here same

theorem ofHex_concat (digits : List Char) (c : Char) :
    ofHex (digits ++ [c]) = 16 * ofHex digits + hexValue c := by
  simp [ofHex]

theorem ofHex_zeros {digits : List Char} (zeros : ∀ c ∈ digits, hexValue c = 0) : ofHex digits = 0 := by
  induction digits using List.reverseRecOn with
  | nil => rfl
  | append_singleton digits c ih =>
      obtain ⟨front, last⟩ := List.forall_mem_append.1 zeros
      rw [ofHex_concat, ih front, last c List.mem_cons_self]

/-- The digits of a number without the last one are those of a sixteenth of it, or zeros. -/
theorem HexDigits.exists_concat {digits : List Char} {code : Nat} (spelled : HexDigits digits code) :
    ∃ front c, digits = front ++ [c] ∧ c.toLower = (code % 16).digitChar ∧
      ((code < 16 ∧ ∀ d ∈ front, d.toLower = '0') ∨ (16 ≤ code ∧ HexDigits front (code / 16))) := by
  obtain ⟨zeros, same⟩ := spelled
  rw [Nat.toDigits_eq_if (by decide)] at same
  split at same
  · rename_i small
    obtain ⟨front, back, rfl, fronted, ended⟩ := List.map_eq_append_iff.1 same
    obtain ⟨c, rfl, last⟩ := List.map_eq_singleton_iff.1 ended
    refine ⟨front, c, rfl, by rw [last, Nat.mod_eq_of_lt small], .inl ⟨small, fun d member => ?_⟩⟩
    have among : d.toLower ∈ List.replicate zeros '0' := fronted ▸ List.mem_map_of_mem member
    exact List.eq_of_mem_replicate among
  · rename_i large
    rw [← List.append_assoc] at same
    obtain ⟨front, back, rfl, fronted, ended⟩ := List.map_eq_append_iff.1 same
    obtain ⟨c, rfl, last⟩ := List.map_eq_singleton_iff.1 ended
    exact ⟨front, c, rfl, last, .inr ⟨Nat.le_of_not_lt large, zeros, fronted⟩⟩

theorem HexDigits.ofHex_eq {digits : List Char} {code : Nat} (spelled : HexDigits digits code) :
    (∀ c ∈ digits, isHexDigit c = true) ∧ ofHex digits = code := by
  induction code using Nat.strongRecOn generalizing digits with
  | ind code ih =>
      obtain ⟨front, c, rfl, last, before⟩ := spelled.exists_concat
      obtain ⟨isDigit, value⟩ := hexValue_of_toLower (Nat.mod_lt code (by decide)) last
      have front_eq : (∀ c ∈ front, isHexDigit c = true) ∧ ofHex front = code / 16 := by
        rcases before with ⟨small, zeros⟩ | ⟨large, spelled⟩
        · have zero (d : Char) (member : d ∈ front) := hexValue_of_toLower (by decide : 0 < 16) (zeros d member)
          refine ⟨fun d member => (zero d member).1, ?_⟩
          rw [ofHex_zeros fun d member => (zero d member).2, Nat.div_eq_of_lt small]
        · exact ih (code / 16) (by omega) spelled
      refine ⟨List.forall_mem_append.2 ⟨front_eq.1, by simpa using isDigit⟩, ?_⟩
      rw [ofHex_concat, front_eq.2, value]
      omega

theorem HexDigits.ne_nil {digits : List Char} {code : Nat} (spelled : HexDigits digits code) : digits ≠ [] := by
  obtain ⟨front, c, rfl, -⟩ := spelled.exists_concat
  simp

theorem ofDecimal_zeros_append (zeros code : Nat) :
    ofDecimal (List.replicate zeros '0' ++ Nat.toDigits 10 code) = code := by
  rw [ofDecimal, Nat.ofDigitChars_append, Nat.ofDigitChars_replicate_zero, Nat.mul_zero,
    Nat.ofDigitChars_ten_toDigits]

end Text

namespace Entity

open Text (HexDigits)

/-- A reference by the number of a character or by a name. -/
inductive Reference where
  | decimal (zeros code : Nat)
  | hex (mark : Char) (digits : List Char) (code : Nat)
  | name (letters : List Char)

namespace Reference

/-- What stands between the ampersand and the semicolon. -/
def body : Reference → List Char
  | decimal zeros code => '#' :: (List.replicate zeros '0' ++ Nat.toDigits 10 code)
  | hex mark digits _ => '#' :: mark :: digits
  | name letters => letters

def written (reference : Reference) : List Char :=
  '&' :: (reference.body ++ [';'])

/-- The character that is meant, if the reference is known. -/
def character? : Reference → Option Char
  | decimal _ code | hex _ _ code => Text.charOf? code
  | name letters => named.lookup (String.ofList letters)

def decoded (reference : Reference) : List Char :=
  match reference.character? with
  | some c => [c]
  | none => reference.written

def Proper : Reference → Prop
  | decimal _ _ => True
  | hex mark digits code => (mark = 'x' ∨ mark = 'X') ∧ HexDigits digits code
  | name letters => ∃ first others, letters = first :: others ∧ first.isAlpha = true ∧
      ∀ c ∈ others, c.isAlphanum = true

end Reference

/-- A part of a text: one without ampersands, or a reference. -/
inductive Chunk where
  | run (text : List Char)
  | reference (reference : Reference)

namespace Chunk

def written : Chunk → List Char
  | run text => text
  | reference inner => inner.written

def decoded : Chunk → List Char
  | run text => text
  | reference inner => inner.decoded

def Proper : Chunk → Prop
  | run text => '&' ∉ text
  | reference inner => inner.Proper

end Chunk

theorem isReferenceChar_of_isDigit {c : Char} (digit : c.isDigit = true) : isReferenceChar c = true := by
  simp [isReferenceChar, Char.isAlphanum, digit]

theorem isReferenceChar_of_isHexDigit {c : Char} (digit : Text.isHexDigit c = true) :
    isReferenceChar c = true := by
  simp only [Text.isHexDigit, Bool.or_eq_true, Bool.and_eq_true, decide_eq_true_eq] at digit
  simp only [isReferenceChar, Char.isAlphanum, Char.isAlpha, Char.isLower, Char.isUpper, Bool.or_eq_true,
    Bool.and_eq_true, decide_eq_true_eq]
  rcases digit with (digit | ⟨low, high⟩) | ⟨low, high⟩
  · exact .inl (.inr digit)
  · exact .inl (.inl (.inr ⟨low, high.trans (by decide)⟩))
  · exact .inl (.inl (.inl ⟨low, high.trans (by decide)⟩))

theorem isDigit_of_mem_decimal {zeros code : Nat} {c : Char}
    (member : c ∈ List.replicate zeros '0' ++ Nat.toDigits 10 code) : c.isDigit = true := by
  rcases List.mem_append.1 member with zero | digit
  · rw [List.eq_of_mem_replicate zero]
    rfl
  · exact Nat.isDigit_of_mem_toDigits (by decide) (by decide) digit

theorem charOf?_decimal (zeros code : Nat) :
    charOf? ('#' :: (List.replicate zeros '0' ++ Nat.toDigits 10 code)) = Text.charOf? code := by
  have digits : (List.replicate zeros '0' ++ Nat.toDigits 10 code).all Char.isDigit = true :=
    List.all_eq_true.2 fun c => isDigit_of_mem_decimal
  have value := Text.ofDecimal_zeros_append zeros code
  have filled : List.replicate zeros '0' ++ Nat.toDigits 10 code ≠ [] := by simp [Nat.toDigits_ne_nil]
  generalize List.replicate zeros '0' ++ Nat.toDigits 10 code = all at digits value filled ⊢
  obtain ⟨first, others, rfl⟩ := List.exists_cons_of_ne_nil filled
  -- A digit is not the mark of a hexadecimal number.
  have noMark : ¬ (first = 'x' || first = 'X') = true := by
    have digit := List.all_eq_true.1 digits first List.mem_cons_self
    intro mark
    rcases (by simpa using mark : first = 'x' ∨ first = 'X') with rfl | rfl <;> exact absurd digit (by decide)
  rw [charOf?, if_neg noMark, if_pos digits, value]

theorem charOf?_hex {mark : Char} {digits : List Char} {code : Nat} (marked : mark = 'x' ∨ mark = 'X')
    (spelled : HexDigits digits code) : charOf? ('#' :: mark :: digits) = Text.charOf? code := by
  obtain ⟨isHex, value⟩ := spelled.ofHex_eq
  have isMark : (mark = 'x' || mark = 'X') = true := by simpa using marked
  have reads : (!digits.isEmpty && digits.all Text.isHexDigit) = true := by
    simpa [spelled.ne_nil] using isHex
  rw [charOf?, if_pos isMark, if_pos reads, value]

theorem charOf?_name {first : Char} (letter : first.isAlpha = true) (others : List Char) :
    charOf? (first :: others) = named.lookup (String.ofList (first :: others)) := by
  unfold charOf?
  split
  · rename_i same
    cases same
    exact absurd letter (by decide)
  · rfl

theorem decode_run_append {text : List Char} (plain : '&' ∉ text) (rest : List Char) :
    decode (text ++ rest) = text ++ decode rest := by
  induction text with
  | nil => rfl
  | cons c text ih =>
      obtain ⟨here, later⟩ := List.ne_and_not_mem_of_not_mem_cons plain
      rw [List.cons_append, decode_cons_of_ne here.symm, ih later, List.cons_append]

theorem decode_unknown {text : List Char} (unknown : read? text = none) :
    decode ('&' :: text) = '&' :: decode text := by
  rw [decode, if_neg (by simp)]
  split
  · rename_i found
    cases unknown.symm.trans found
  · rfl

variable {reference : Reference}

theorem Reference.Proper.letters (proper : reference.Proper) :
    ∀ c ∈ reference.body, isReferenceChar c = true := by
  cases reference with
  | decimal zeros code =>
      exact List.forall_mem_cons.2 ⟨rfl, fun c member =>
        isReferenceChar_of_isDigit (isDigit_of_mem_decimal member)⟩
  | hex mark digits code =>
      obtain ⟨marked, spelled⟩ := proper
      have markChar : isReferenceChar mark = true := by rcases marked with rfl | rfl <;> rfl
      exact List.forall_mem_cons.2 ⟨rfl, List.forall_mem_cons.2 ⟨markChar, fun c member =>
        isReferenceChar_of_isHexDigit (spelled.ofHex_eq.1 c member)⟩⟩
  | name letters =>
      obtain ⟨first, others, rfl, alpha, alphanum⟩ := proper
      have letter : first.isAlphanum = true := by simp [Char.isAlphanum, alpha]
      exact List.forall_mem_cons.2 ⟨by simp [isReferenceChar, letter],
        fun c member => by simp [isReferenceChar, alphanum c member]⟩

theorem Reference.Proper.charOf?_eq (proper : reference.Proper) :
    charOf? reference.body = reference.character? := by
  cases reference with
  | decimal zeros code => exact charOf?_decimal zeros code
  | hex mark digits code => exact charOf?_hex proper.1 proper.2
  | name letters =>
      obtain ⟨first, others, rfl, alpha, -⟩ := proper
      exact charOf?_name alpha others

/-- A reference decodes by itself: to its character if it has one, and else to itself. -/
theorem Reference.Proper.decode_append (proper : reference.Proper) (rest : List Char) :
    decode (reference.written ++ rest) = reference.decoded ++ decode rest := by
  have read := read?_eq proper.letters rest
  rw [proper.charOf?_eq] at read
  have split : reference.written ++ rest = '&' :: (reference.body ++ ';' :: rest) := by simp [written]
  rw [split, decoded]
  cases known : reference.character? with
  | some c =>
      rw [known] at read
      exact decode_reference read
  | none =>
      -- No other reference begins in an unknown one.
      have plain : '&' ∉ reference.body ++ [';'] := by
        intro member
        rcases List.mem_append.1 member with inside | last
        · exact absurd (proper.letters '&' inside) (by decide)
        · exact absurd last (by decide)
      have tail := decode_run_append plain rest
      rw [List.append_assoc, List.singleton_append] at tail
      rw [known] at read
      rw [decode_unknown read, tail]
      rfl

theorem decode_flatMap_written {chunks : List Chunk} (proper : ∀ chunk ∈ chunks, chunk.Proper) :
    decode (chunks.flatMap (·.written)) = chunks.flatMap (·.decoded) := by
  induction chunks with
  | nil => exact decode_nil
  | cons chunk chunks ih =>
      obtain ⟨here, later⟩ := List.forall_mem_cons.1 proper
      have first : decode (chunk.written ++ chunks.flatMap (·.written)) =
          chunk.decoded ++ decode (chunks.flatMap (·.written)) := by
        cases chunk with
        | run text => exact decode_run_append here _
        | reference inner => exact Reference.Proper.decode_append here _
      rw [List.flatMap_cons, first, ih later, List.flatMap_cons]

/-- A character of a text with every ampersand as a reference. -/
def ampersandChunk (c : Char) : Chunk :=
  if c = '&' then .reference (.name ['a', 'm', 'p']) else .run [c]

theorem proper_ampersandChunk (c : Char) : (ampersandChunk c).Proper := by
  unfold ampersandChunk
  split
  · exact ⟨'a', ['m', 'p'], rfl, rfl, by simp [Char.isAlphanum, Char.isAlpha]⟩
  · rename_i other
    simpa [Chunk.Proper, eq_comm] using other

theorem written_ampersandChunk (c : Char) :
    (ampersandChunk c).written = if c = '&' then "&amp;".toList else [c] := by
  unfold ampersandChunk
  split <;> rfl

theorem decoded_ampersandChunk (c : Char) : (ampersandChunk c).decoded = [c] := by
  unfold ampersandChunk
  split
  · rename_i same
    rw [same]
    cbv
  · rfl

end Entity

open Entity (Chunk ampersandChunk)

/-- Decoding a text decodes each of its parts, once: runs and unknown references are kept as they
are, and every other reference becomes its character. So it takes the writing of ampersands back. -/
theorem unescapeEntities_chunks {chunks : List Chunk} (proper : ∀ chunk ∈ chunks, chunk.Proper)
    (text : List Char) :
    unescapeEntities (String.ofList (chunks.flatMap (·.written))) =
        String.ofList (chunks.flatMap (·.decoded)) ∧
      unescapeEntities (String.ofList (text.flatMap fun c => if c = '&' then "&amp;".toList else [c])) =
        String.ofList text := by
  constructor
  · rw [unescapeEntities, String.toList_ofList, Entity.decode_flatMap_written proper]
  · have properText : ∀ chunk ∈ text.map ampersandChunk, chunk.Proper := by
      intro chunk member
      obtain ⟨c, -, rfl⟩ := List.mem_map.1 member
      exact Entity.proper_ampersandChunk c
    have decoded := Entity.decode_flatMap_written properText
    simp only [List.flatMap_map, Entity.written_ampersandChunk, Entity.decoded_ampersandChunk,
      List.flatMap_singleton'] at decoded
    rw [unescapeEntities, String.toList_ofList, decoded]

theorem unescapeEntities_chunks_mixed :
    unescapeEntities "#38;&#0038;lt;&#X1f60A;&nope;&#xD800;&#1114112;" = "#38;&lt;😊&nope;&#xD800;&#1114112;" ∧
      unescapeEntities "&amp;amp;&amp;#38;" = "&amp;&#38;" := by
  have known : (Entity.Reference.hex 'X' ['1', 'f', '6', '0', 'A'] 0x1F60A).Proper := ⟨.inr rfl, 0, rfl⟩
  have surrogate : (Entity.Reference.hex 'x' ['D', '8', '0', '0'] 0xD800).Proper := ⟨.inl rfl, 0, rfl⟩
  have unknown : (Entity.Reference.name ['n', 'o', 'p', 'e']).Proper :=
    ⟨'n', ['o', 'p', 'e'], rfl, rfl, List.all_eq_true.1 (by decide)⟩
  have proper : ∀ chunk ∈ ([.run ['#', '3', '8', ';'], .reference (.decimal 2 38), .run ['l', 't', ';'],
      .reference (.hex 'X' ['1', 'f', '6', '0', 'A'] 0x1F60A), .reference (.name ['n', 'o', 'p', 'e']),
      .reference (.hex 'x' ['D', '8', '0', '0'] 0xD800), .reference (.decimal 0 0x110000)] : List Chunk),
      chunk.Proper := by
    simp only [List.forall_mem_cons, List.not_mem_nil, false_implies, implies_true, and_true]
    exact ⟨show '&' ∉ _ by decide, trivial, show '&' ∉ _ by decide, known, unknown, surrogate, trivial⟩
  exact unescapeEntities_chunks proper "&amp;&#38;".toList

end Stencil
