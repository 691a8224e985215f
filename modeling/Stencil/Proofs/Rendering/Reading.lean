import Stencil.Proofs.Rendering.Attributes

/-! Written steps are read as the pieces they stand for.

A tag ends the text before it and is read at once. Steps that are not tags gather
into one text, which is split where they meet.
-/

set_option autoImplicit false

namespace Stencil

namespace Fragment

/-- Two texts would run together; a tag between them keeps them apart. -/
def Beside : Option Fragment → Option Fragment → Prop
  | some first, some second => first.Apart second
  | _, _ => True

end Fragment

namespace Compiler

/-- An element name that is read as it is written, and opens nothing but an element. -/
structure PlainName (name : String) : Prop where
  proper : Markup.ProperTag name.toList
  lower : Markup.lowercase name.toList = name.toList
  notRaw : Markup.isRawText name = false
  notView : name ≠ "view"

/-- Steps that are read back from how they are written. -/
inductive Legible (compiler : Compiler) : Visit → Prop where
  | start {name : String} {attributes : Dict Attribute} : PlainName name →
      compiler.WritesAttributes attributes → Legible compiler (.start name attributes)
  | finish {name : String} : PlainName name → Markup.isVoid name = false →
      Legible compiler (.finish name)
  | text {data : String} : data ≠ "" → '{' ∉ data.toList → Legible compiler (.text data)
  | expression {expression : Expression} : compiler.Spells expression →
      expression.marks.isView = false → Legible compiler (.expression expression)
  | otherwise : Legible compiler .otherwise
  | ending {opener : Expression} : Legible compiler (.ending opener)

variable {compiler : Compiler} {context : ViewContext} {visit : Visit}

/-- A step that is not a tag is a fragment of its own. -/
theorem Legible.fragment (legible : compiler.Legible visit) {fragment : Fragment}
    (same : visit.fragment? = some fragment) :
    fragment.Proper ∧ compiler.fragmentPieces fragment = .ok [visit.piece] ∧
      visit.written = Entity.encode false fragment.written := by
  cases legible with
  | start | finish => cases same
  | text filled noOpen =>
      cases same
      exact ⟨⟨filled, noOpen⟩, rfl, rfl⟩
  | expression spells =>
      cases same
      exact ⟨spells.proper, spells.fragmentPieces, rfl⟩
  | otherwise =>
      cases same
      exact ⟨Fragment.encloses_of_plain (by decide) (by decide), fragmentPieces_else, rfl⟩
  | ending =>
      cases same
      exact ⟨Fragment.encloses_of_plain (by decide) (by decide), fragmentPieces_slash, rfl⟩

/-- A tag is read at the bracket it begins with, whatever follows it. -/
theorem Legible.tag (legible : compiler.Legible visit) (context : ViewContext)
    (isTag : visit.fragment? = none) :
    ∃ text event, visit.written = '<' :: text ∧
      (∀ rest, Markup.readTag? (visit.written ++ rest) = some ([event], rest)) ∧
      compiler.eventPieces context event = .ok [visit.piece] := by
  cases legible with
  | @start name attributes named writes =>
      let tag := String.ofList (Visit.start name attributes).written
      refine ⟨_, .startTag tag name ((Visit.entries attributes).map (·.read)), rfl, fun rest => ?_, ?_⟩
      · rw [Visit.written, Markup.readTag?_writtenStart named.proper writes.proper,
          Markup.readStartTag?_written named.proper writes.proper, named.lower, String.ofList_toList]
        simp only [Markup.afterStartTag, named.notRaw, Bool.false_eq_true, if_false]
        rfl
      · simp only [eventPieces, writes.attributes]
        rfl
  | @finish name named isOpen =>
      let tag := String.ofList (Visit.finish name).written
      refine ⟨_, .endTag tag name, rfl, fun rest => ?_, ?_⟩
      · rw [Visit.written, Markup.readTag?_writtenEnd named.proper, named.lower, String.ofList_toList]
        rfl
      · simp only [eventPieces, isOpen, Bool.false_eq_true, if_false]
        rfl
  | text | expression | otherwise | ending => cases isTag

theorem gather_textEvents {data : List Char} {pieces : List Piece}
    (read : compiler.textPieces (unescapeEntities (String.ofList data)) = .ok pieces) :
    gather (compiler.eventPieces context) (Markup.textEvents data) = .ok pieces := by
  unfold Markup.textEvents
  split
  · rename_i empty
    obtain rfl := List.isEmpty_iff.1 empty
    have none : compiler.textPieces (unescapeEntities (String.ofList [])) = .ok [] := by
      rw [textPieces_eq_ok_iff]
      refine ⟨by cbv, ?_⟩
      have ended : (Fragment.split (unescapeEntities (String.ofList []))).items = [] := by cbv
      rw [ended]
      rfl
    exact none.symm.trans read
  · exact gather_cons_eq_ok_iff.2 ⟨pieces, [], read, rfl, (List.append_nil pieces).symm⟩

/-- Steps are read after a text that is not ended yet. The text is that of some
fragments, and no two texts meet in it or after it. -/
theorem gather_eventsFrom {visits : List Visit} (legible : ∀ visit ∈ visits, compiler.Legible visit)
    {run : List Fragment} {pieces : List Piece} (proper : ∀ fragment ∈ run, fragment.Proper)
    (read : gather compiler.fragmentPieces run = .ok pieces)
    (apart : (run.map some ++ visits.map Visit.fragment?).IsChain Fragment.Beside) :
    gather (compiler.eventPieces context)
        (Markup.eventsFrom (Entity.encode false (run.flatMap Fragment.written)).reverse
          (visits.flatMap Visit.written)) =
      .ok (pieces ++ visits.map Visit.piece) := by
  induction visits generalizing run pieces with
  | nil =>
      rw [List.map_nil, List.append_nil, List.isChain_map] at apart
      rw [List.flatMap_nil, Markup.eventsFrom_nil, List.reverse_reverse, List.map_nil, List.append_nil]
      exact gather_textEvents (textPieces_encode false proper apart read)
  | cons visit rest ih =>
      obtain ⟨here, later⟩ := List.forall_mem_cons.1 legible
      rw [List.flatMap_cons, List.map_cons]
      cases kind : visit.fragment? with
      | some fragment =>
          -- The text goes on with one more fragment.
          obtain ⟨fits, own, written⟩ := here.fragment kind
          have noBracket : '<' ∉ Entity.encode false fragment.written :=
            Entity.not_mem_encode (Or.inl rfl) fragment.written
          have longer : ∀ other ∈ run ++ [fragment], other.Proper := by
            simpa [or_imp, forall_and] using ⟨proper, fits⟩
          have whole := ih later longer (gather_append read (gather_singleton own))
            (by simpa [kind] using apart)
          rw [written, Markup.eventsFrom_append noBracket, ← List.reverse_append, ← Entity.encode_append]
          simpa using whole
      | none =>
          -- The text ends, and the next one begins after the tag.
          obtain ⟨text, event, begins, found, own⟩ := here.tag context kind
          have before : run.IsChain Fragment.Apart := by
            have front := (List.isChain_append.1 apart).1
            rwa [List.isChain_map] at front
          have after : (rest.map Visit.fragment?).IsChain Fragment.Beside :=
            (List.isChain_append.1 apart).2.1.tail
          have whole : gather (compiler.eventPieces context)
              (Markup.eventsFrom [] (rest.flatMap Visit.written)) = .ok (rest.map Visit.piece) :=
            @ih later [] [] (by simp) rfl (by simpa using after)
          have tagged := found (rest.flatMap Visit.written)
          rw [begins, List.cons_append] at tagged ⊢
          rw [Markup.eventsFrom_tag tagged, List.reverse_reverse, List.append_assoc]
          refine gather_append (gather_textEvents (textPieces_encode false proper before read)) ?_
          exact gather_cons_eq_ok_iff.2 ⟨_, _, own, whole, rfl⟩

/-- What is written for the steps of a walk is read as their pieces. -/
theorem markupPieces_written {visits : List Visit} (legible : ∀ visit ∈ visits, compiler.Legible visit)
    (apart : (visits.map Visit.fragment?).IsChain Fragment.Beside) :
    compiler.markupPieces context (String.ofList (visits.flatMap Visit.written)) =
      .ok (visits.map Visit.piece) := by
  rw [markupPieces, Markup.events, String.toList_ofList]
  exact @gather_eventsFrom compiler context visits legible [] [] (by simp) rfl (by simpa using apart)

end Compiler

end Stencil
