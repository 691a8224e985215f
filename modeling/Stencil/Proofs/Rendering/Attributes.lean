import Mathlib.Data.List.TakeWhile
import Stencil.Proofs.Marks
import Stencil.Proofs.Rendering

/-! Written fragments and attributes are read as what they were written for. -/

set_option autoImplicit false

namespace Stencil

namespace Text

theorem all_isBlank_of_trim {text : List Char} (trimmed : trim text = text) (filled : text ≠ []) :
    text.all isBlank = false := by
  by_contra blank
  have all : ∀ c ∈ text, isBlank c = true := by simpa using blank
  apply filled
  rw [← trimmed, trim, trimStart, List.dropWhile_eq_nil_iff.2 all]
  rfl

end Text

namespace Compiler

variable {compiler : Compiler} {context : ViewContext}

/-- Attributes with distinct names are kept as they come. -/
theorem attributes_map {dict : Dict Attribute} {value : String × Attribute → Option String}
    (distinct : dict.keys.Nodup)
    (read : ∀ entry ∈ dict.entries, compiler.attributeFor context entry.1 (value entry) = .ok entry.2) :
    compiler.attributes context (dict.entries.map fun entry => (entry.1, value entry)) = .ok dict := by
  -- The entries that are read already stand in front of the others.
  have step (front rest : List (String × Attribute)) (distinct : ((front ++ rest).map (·.1)).Nodup)
      (read : ∀ entry ∈ rest, compiler.attributeFor context entry.1 (value entry) = .ok entry.2) :
      (rest.map fun entry => (entry.1, value entry)).foldlM (fun (dict : Dict Attribute) entry => do
        let value ← compiler.attributeFor context entry.1 entry.2
        pure (dict.insert entry.1 value)) ⟨front⟩ = .ok ⟨front ++ rest⟩ := by
    induction rest generalizing front with
    | nil => simp [pure, Except.pure]
    | cons entry rest ih =>
        have fresh : entry.1 ∉ front.map (·.1) := by
          rw [List.map_append, List.nodup_append] at distinct
          intro member
          exact distinct.2.2 _ member entry.1 (by simp) rfl
        have later := ih (front ++ [entry]) (by simpa using distinct)
          fun other member => read other (List.mem_cons_of_mem entry member)
        rw [List.append_assoc] at later
        rw [List.map_cons, List.foldlM_cons, read entry List.mem_cons_self]
        simpa [Dict.insert, Dict.put_of_not_mem fresh, bind, Except.bind, pure, Except.pure] using later
  exact step [] dict.entries distinct read

/-- Fragments that were written together are read as their own pieces. -/
theorem textPieces_encode (quoted : Bool) {run : List Fragment} {pieces : List Piece}
    (proper : ∀ fragment ∈ run, fragment.Proper) (apart : run.IsChain Fragment.Apart)
    (read : gather compiler.fragmentPieces run = .ok pieces) :
    compiler.textPieces
      (unescapeEntities (String.ofList (Entity.encode quoted (run.flatMap Fragment.written)))) =
        .ok pieces := by
  rw [unescapeEntities_encode, textPieces_eq_ok_iff, Fragment.split, String.toList_ofList,
    Fragment.splitFrom_flatMap_written _ proper apart]
  exact ⟨rfl, read⟩

namespace Spells

variable {expression : Expression}

theorem proper (spells : compiler.Spells expression) :
    (Fragment.delimited expression.marks.source).Proper :=
  Fragment.encloses_of_plain spells.noOpen spells.noClose

theorem fragmentPieces (spells : compiler.Spells expression) :
    compiler.fragmentPieces (.delimited expression.marks.source) = .ok [.expression expression] := by
  refine fragmentPieces_delimited (Text.all_isBlank_of_trim spells.trimmed ?_) spells.parsed
  simpa using spells.filled

end Spells

theorem gather_singleton {fragment : Fragment} {pieces : List Piece}
    (read : compiler.fragmentPieces fragment = .ok pieces) :
    gather compiler.fragmentPieces [fragment] = .ok pieces :=
  gather_cons_eq_ok_iff.2 ⟨pieces, [], read, rfl, (List.append_nil pieces).symm⟩

/-- A value of one fragment is the attribute of the one node of that fragment. -/
theorem attributeFor_encode {name : String} {fragment : Fragment} {piece : Piece} {node : Node}
    {value : Attribute} (filled : fragment.written ≠ []) (proper : fragment.Proper)
    (read : compiler.fragmentPieces fragment = .ok [piece])
    (added : compiler.addPiece context .root piece = .ok (Scope.root.append node))
    (single : attributeOf? [node] = some value) :
    compiler.attributeFor context name (some (String.ofList (Entity.encode true fragment.written))) =
      .ok value := by
  have pieces : compiler.textPieces
      (unescapeEntities (String.ofList (Entity.encode true fragment.written))) = .ok [piece] := by
    rw [← List.flatMap_singleton Fragment.written fragment]
    exact textPieces_encode true (by simpa using proper) (List.isChain_singleton fragment)
      (gather_singleton read)
  have compiled : compiler.compileString context
      (unescapeEntities (String.ofList (Entity.encode true fragment.written))) = .ok [node] := by
    rw [compileString_eq pieces, addPieces_cons_of_ok added]
    rfl
  have written : (String.ofList (Entity.encode true fragment.written)).isEmpty = false := by
    simpa [Entity.encode_eq_nil_iff] using filled
  simp only [attributeFor, written, Bool.false_eq_true, if_false, attributeValue, compiled]
  simp only [bind, Except.bind, single]
  rfl

/-- Attributes are compiled from the values that are written for them. -/
theorem WritesValue.attributeFor {value : Attribute} (writes : compiler.WritesValue value)
    (name : String) :
    compiler.attributeFor context name (value.written.text?.map String.ofList) = .ok value := by
  cases writes with
  | absent => rfl
  | @text text noOpen =>
      -- An empty value is kept without being split.
      by_cases empty : text = ""
      · subst empty
        rfl
      · have filled : (Fragment.literal text).written ≠ [] := by simpa [Fragment.written] using empty
        have read : compiler.fragmentPieces (.literal text) = .ok [.text text] := rfl
        have added : compiler.addPiece context .root (.text text) =
            .ok (Scope.root.append (.text text)) := rfl
        change compiler.attributeFor context name
          (some (String.ofList (Entity.encode true (Fragment.literal text).written))) = _
        exact attributeFor_encode filled ⟨empty, noOpen⟩ read added rfl
  | @dynamic expression spells isValue notLiteral =>
      refine attributeFor_encode (by simp [Fragment.written, Fragment.opening]) spells.proper
        spells.fragmentPieces (addPiece_value isValue) ?_
      simp only [attributeOf?]

theorem WritesAttributes.attributes {dict : Dict Attribute} (writes : compiler.WritesAttributes dict) :
    compiler.attributes context ((Visit.entries dict).map (·.read)) = .ok dict := by
  have written : (Visit.entries dict).map (·.read) =
      dict.entries.map fun entry => (entry.1, entry.2.written.text?.map String.ofList) := by
    simp [Visit.entries, StartTag.WrittenAttribute.read]
  rw [written]
  exact attributes_map writes.distinct
    fun entry member => (writes.valued entry member).attributeFor entry.1

/-- The names and values of written attributes are such that a tag reads them back. -/
theorem WritesAttributes.proper {dict : Dict Attribute} (writes : compiler.WritesAttributes dict) :
    ∀ entry ∈ Visit.entries dict, entry.Proper := by
  intro entry member
  obtain ⟨⟨name, value⟩, among, rfl⟩ := List.mem_map.1 member
  refine ⟨writes.named _ among, ?_⟩
  have noQuote : ∀ text, '"' ∉ Entity.encode true text := Entity.not_mem_encode (Or.inr ⟨rfl, rfl⟩)
  have valued : compiler.WritesValue value := writes.valued _ among
  cases valued with
  | absent => trivial
  | text _ => exact ⟨Or.inl rfl, noQuote _⟩
  | dynamic _ _ _ => exact ⟨Or.inl rfl, noQuote _⟩

end Compiler

end Stencil
