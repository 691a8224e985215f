import Stencil.Proofs.Reference
import Stencil.Proofs.Rendering.Reading

/-! References that are expressions.

The word `view` is taken off the text between the delimiters, and the rest reads as a
name and an object. The object is a literal if all its values are, and otherwise an
operator on its names and values; its bag is the same in both cases.
-/

set_option autoImplicit false

namespace Stencil

namespace Text

theorem not_mem_intercalate {c : Char} {separator : List Char} {texts : List (List Char)}
    (apart : c ∉ separator) (each : ∀ text ∈ texts, c ∉ text) : c ∉ separator.intercalate texts := by
  induction texts with
  | nil => simp
  | cons text rest ih =>
      obtain ⟨here, later⟩ := List.forall_mem_cons.1 each
      cases rest with
      | nil => simpa using here
      | cons next rest =>
          rw [List.intercalate_cons_cons, List.append_assoc]
          simp only [List.mem_append, not_or]
          exact ⟨here, apart, ih later⟩

end Text

/-- No block opens with the word that refers to views. -/
def BlockMap.LeavesView (blocks : BlockMap) : Prop :=
  ∀ word ∈ blocks.keys, word.toList ≠ ['v', 'i', 'e', 'w'] ∧ ¬ ['v', 'i', 'e', 'w', ' '] <+: word.toList

instance (blocks : BlockMap) : Decidable blocks.LeavesView :=
  inferInstanceAs (Decidable (∀ word ∈ blocks.keys, word.toList ≠ ['v', 'i', 'e', 'w'] ∧
    ¬ ['v', 'i', 'e', 'w', ' '] <+: word.toList))

/-- A quoted name after the word `view`, and all that follows it, is read as the path of a view. -/
theorem Marks.read_view {blocks : BlockMap} (leaves : blocks.LeavesView) (rest : List Char) :
    let text := ['v', 'i', 'e', 'w', ' '] ++ '"' :: rest
    read blocks.openers text = ({ plain (String.ofList text) with isView := true }, '"' :: rest) := by
  intro text
  have opens : Text.firstWord? blocks.openers text = none := by
    refine Text.firstWord?_eq_none fun word member => ?_
    have apart : word.toList ≠ ['v', 'i', 'e', 'w'] ∧ ¬ ['v', 'i', 'e', 'w', ' '] <+: word.toList := by
      rcases List.mem_append.1 member with key | continues
      · exact leaves word key
      · rw [List.mem_singleton.1 continues]
        decide
    exact Text.afterWord?_eq_none_of_apart rfl apart.1 apart.2 ('"' :: rest)
  have alone : String.ofList text ∉ ["else", "unbound", "bound"] := by
    simp [text, ← String.toList_inj]
  have word : ValueWord.read? text = some (.view, '"' :: rest) := by
    have found : Text.afterWord? ValueWord.view.symbol text = some (Text.trimStart ('"' :: rest)) :=
      Text.afterWord?_append rfl _ _
    have dark : Text.trimStart ('"' :: rest) = '"' :: rest := StartTag.trimStart_of_not_blank rfl rest
    simp [ValueWord.read?, ValueWord.all, found, dark]
  have ended : ValueWord.read? ('"' :: rest) = none := by
    refine ValueWord.read?_eq_none fun word _ => ?_
    cases word <;> simp [Text.afterWord?, Text.strip?, ValueWord.symbol]
  rw [read_of_value opens alone (by simp [text]), ValueWord.readAll_of_some word,
    ValueWord.readAll_of_none ended]
  rfl

namespace Grammar

variable {α β : Type} {item : Rule β} {f : α → β} {tokens : List Token} {values : List α}

theorem Separated.map (separated : Separated (fun tokens value => item tokens (f value)) tokens values) :
    Separated item tokens (values.map f) := by
  induction separated with
  | one derived => exact .one derived
  | cons derived _ ih => exact .cons derived ih

theorem Listed.map (listed : Listed (fun tokens value => item tokens (f value)) tokens values) :
    Listed item tokens (values.map f) := by
  cases listed with
  | none => exact .none
  | plain separated => exact .plain separated.map
  | trailing separated => exact .trailing separated.map

end Grammar

namespace ViewAttribute

/-- What is passed for the value of a member. -/
def ofMember : Expr → ViewAttribute
  | .literal value => .literal value
  | value => ofExpression (.ofExpr value)

end ViewAttribute

namespace Bag

open Grammar (alternating literals objectOf_literals objectOf_eq_operator eq_literals_or_exists
  exists_eq_literals objectOf)

theorem ofPairs_alternating (source : String) (bag : Bag) (members : List (String × Expr)) :
    ofPairs source bag (alternating members) =
      .ok (members.foldl (fun bag member => bag.insert member.1 (.ofMember member.2)) bag) := by
  induction members generalizing bag with
  | nil => rfl
  | cons member rest ih =>
      obtain ⟨name, value⟩ := member
      have step : ofPairs source bag (.literal (.string name) :: value :: alternating rest) =
          ofPairs source (bag.insert name (.ofMember value)) (alternating rest) := by
        cases value <;> rfl
      exact step.trans (ih _)

/-- The bag of members that are put into it one by one. -/
def ofMembers (members : List (String × Expr)) : Bag :=
  members.foldl (fun bag member => bag.insert member.1 (.ofMember member.2)) .empty

theorem ofMembers_of_nodup {members : List (String × Expr)} (distinct : (members.map (·.1)).Nodup) :
    ofMembers members = ⟨members.map fun member => (member.1, .ofMember member.2)⟩ :=
  Dict.foldl_insert_map (fun member : String × Expr => ViewAttribute.ofMember member.2) distinct

/-- The bag of an object does not depend on whether the object was folded to a literal. -/
theorem ofExpr_objectOf (source : String) (members : List (String × Expr)) :
    ofExpr source (some (objectOf members)) = .ok (ofMembers members) := by
  rcases eq_literals_or_exists (·.2) members with ⟨values, all⟩ | other
  · obtain ⟨entries, rfl⟩ := exists_eq_literals all
    -- The literal has each name once by now; putting its entries into a bag changes nothing.
    rw [objectOf_literals, ofExpr, Dict.foldl_insert_ofEntries, ofMembers, literals, List.foldl_map]
    rfl
  · rw [objectOf_eq_operator other, ofExpr, if_pos rfl, ofPairs_alternating]
    rfl

end Bag

namespace Reference

open Token Printed Grammar

variable {entries : Entries} {name : String}

def members (entries : Entries) : List (String × Expr) :=
  entries.map fun entry => (entry.1, entry.2.tree)

/-- The members in their braces read as an object. -/
theorem Proper.exists_object (proper : Proper entries) (depth : Nat) :
    ∃ tokens, Spelled ('{' :: (membersText entries ++ ['}'])) tokens ∧
      OperandOf (nested (depth + 2)).conditional tokens (objectOf (members entries)) := by
  have each : ∀ entry ∈ entries, ∃ tokens, Spelled (memberText entry) tokens ∧
      MemberOf (nested (depth + 2)).conditional tokens (entry.1, entry.2.tree) := by
    intro entry member
    have word : isWord entry.1.toList = true := by
      rw [isWord, (proper.named entry member).isName, Bool.true_or]
    obtain ⟨tokens, spelled, operand⟩ := (proper.valued entry member).exists_operand depth
    exact ⟨_, spelled.keyed word, .keyed (key_word entry.1) (Passed.conditional_of_operand operand)⟩
  obtain ⟨_, spelled, inner, rfl, listed⟩ := exists_listed .brace .wide each
  exact ⟨_, spelled, object_of_listed listed.map⟩

theorem arguments_eq (name : String) (entries : Entries) : arguments name entries =
    (Passed.text name).written ++ ([',', ' '] ++ '{' :: (membersText entries ++ ['}'])) := by
  simp [arguments, Passed.written]

theorem framed_arguments (name : String) (entries : Entries) : Framed (arguments name entries) where
  opens := ⟨'"', _, rfl, rfl, by decide⟩
  shuts := by
    rw [arguments_eq]
    exact ((Shuts.cons ⟨membersText entries, '}', rfl, rfl⟩ '{').after _).after _

theorem Proper.parse_arguments (proper : Proper entries) (plain : IsPlainText name) :
    Expr.parse (String.ofList (arguments name entries)) =
      .ok (.sequence [.literal (.string name), objectOf (members entries)]) := by
  obtain ⟨opens, shuts⟩ := framed_arguments name entries
  obtain ⟨first, spelled, operand⟩ := (Passed.Proper.text plain).exists_operand 254
  obtain ⟨others, more, object⟩ := proper.exists_object 252
  have whole : Spelled (arguments name entries) (first ++ .punct .comma :: others) := by
    intro rest closes
    rw [arguments_eq, List.append_assoc, List.append_assoc, spelled _ (IsSeparator.wide.closes _),
      IsSeparator.wide.lex_append, more rest closes, prepend_append, prepend_cons]
  exact Expr.parse_of_spelled opens shuts whole
    (.more (Passed.conditional_of_operand operand) (.one (Passed.conditional_of_operand object)))

/-- The text between the delimiters. -/
def content (name : String) (entries : Entries) : List Char :=
  ['v', 'i', 'e', 'w', ' '] ++ arguments name entries

variable {compiler : Compiler}

theorem Proper.parse_content (proper : Proper entries) (leaves : compiler.blocks.LeavesView)
    (plain : IsPlainText name) :
    compiler.expression (String.ofList (content name entries)) =
      .ok ⟨.sequence [.literal (.string name), objectOf (members entries)],
        { Marks.plain (String.ofList (content name entries)) with isView := true }⟩ := by
  have opens : Opens (content name entries) := ⟨'v', _, rfl, rfl, by decide⟩
  have shuts : Shuts (content name entries) := (framed_arguments name entries).shuts.after _
  refine Expression.parse_eq_ok_iff.2 ⟨arguments name entries, ?_, ?_⟩
  · rw [String.toList_ofList, trim_eq opens shuts]
    exact Marks.read_view leaves _
  · rw [Expression.pathTree, if_neg (by simp [arguments]), proper.parse_arguments plain]

/-- Of the special characters only quotes stand between the members, -/
theorem Proper.not_mem_membersText (proper : Proper entries) {mark : Char} (special : mark ∈ specialChars)
    (noQuote : mark ≠ '"') : mark ∉ membersText entries := by
  obtain ⟨isMark, apart⟩ := special_apart special
  simp only [List.mem_cons, List.not_mem_nil, or_false, not_or] at apart
  refine Text.not_mem_intercalate (by simp [apart]) (List.forall_mem_map.2 fun entry member => ?_)
  have key : mark ∉ entry.1.toList := (proper.named entry member).not_mem isMark
  have value : mark ∉ entry.2.written := (proper.valued entry member).not_mem_written special noQuote
  simp [memberText, key, value, apart]

/-- and only quotes and the braces of the object in the whole content. -/
theorem Proper.not_mem_content (proper : Proper entries) (plain : IsPlainText name) {mark : Char}
    (special : mark ∈ specialChars) (apart : mark ∉ ['v', 'i', 'e', 'w', ' ', '"', ',', '{', '}']) :
    mark ∉ content name entries := by
  simp only [List.mem_cons, List.not_mem_nil, or_false, not_or] at apart
  have inside : mark ∉ membersText entries := proper.not_mem_membersText special (by simp [apart])
  simp [content, arguments, plain mark special, inside, apart]

theorem Proper.encloses_content (proper : Proper entries) (plain : IsPlainText name) :
    Fragment.Encloses (content name entries) := by
  have whole : content name entries =
      ['v', 'i', 'e', 'w', ' ', '"'] ++ (name.toList ++ ['"', ',', ' ']) ++
        '{' :: (membersText entries ++ ['}']) := by
    simp [content, arguments]
  rw [whole]
  refine Fragment.encloses_of_group ?_ ?_ (proper.not_mem_membersText (by decide) (by decide))
    (proper.not_mem_membersText (by decide) (by decide))
  · simp [plain '{' (by decide)]
  · simp [plain '}' (by decide)]

/-- The bag of the object is what the view is given. -/
theorem Proper.ofExpr_members (proper : Proper entries) (source : String) :
    Bag.ofExpr source (some (objectOf (members entries))) = .ok (bag entries) := by
  have distinct : ((members entries).map (·.1)).Nodup := by
    simpa [members, Function.comp_def] using proper.distinct
  have passed : ∀ value : Passed, ViewAttribute.ofMember value.tree = .ofAttribute value.toAttribute := by
    intro value
    cases value <;> rfl
  rw [Bag.ofExpr_objectOf, Bag.ofMembers_of_nodup distinct, members, List.map_map, bag]
  simp only [Function.comp_def, passed]

end Reference

namespace Compiler

variable {compiler : Compiler} {context : ViewContext}

/-- A source that is one expression compiles to the node of this expression. -/
theorem compileMarkup_expression {content : List Char} {expression : Expression} {node : Node}
    (noBracket : '<' ∉ content) (noReference : '&' ∉ content) (encloses : Fragment.Encloses content)
    (filled : content.all Text.isBlank = false)
    (parsed : compiler.expression (String.ofList content) = .ok expression)
    (added : compiler.addPiece context .root (.expression expression) = .ok (Scope.root.append node)) :
    compiler.compileMarkup context (String.ofList (['{', '{'] ++ (content ++ ['}', '}']))) =
      .ok [node] := by
  have written : (Fragment.delimited (String.ofList content)).written =
      ['{', '{'] ++ (content ++ ['}', '}']) := by
    simp [Fragment.written, Fragment.opening]
  rw [← written]
  have bracket : '<' ∉ (Fragment.delimited (String.ofList content)).written := by
    simp [written, noBracket]
  have reference : '&' ∉ (Fragment.delimited (String.ofList content)).written := by
    simp [written, noReference]
  have proper : (Fragment.delimited (String.ofList content)).Proper := by
    rwa [Fragment.Proper, String.toList_ofList]
  have fragment : compiler.fragmentPieces (.delimited (String.ofList content)) =
      .ok [.expression expression] :=
    fragmentPieces_delimited (by rwa [String.toList_ofList]) parsed
  have text := textPieces_encode false (List.forall_mem_singleton.2 proper)
    (List.isChain_singleton _) (gather_singleton fragment)
  rw [List.flatMap_singleton, Entity.encode_of_plain reference bracket (by simp)] at text
  have pieces : compiler.markupPieces context
      (String.ofList (Fragment.delimited (String.ofList content)).written) =
        .ok [.expression expression] := by
    rw [markupPieces, Markup.events, String.toList_ofList,
      ← List.append_nil (Fragment.delimited (String.ofList content)).written,
      Markup.eventsFrom_append bracket, List.append_nil, Markup.eventsFrom_nil, List.reverse_reverse]
    exact gather_textEvents text
  rw [compileMarkup_eq pieces, addPieces_cons_of_ok added]
  rfl

end Compiler

namespace Reference

variable {entries : Entries} {name : String} {compiler : Compiler} {context : ViewContext} {view : View}

/-- An expression compiles to a reference to the view that it names. -/
theorem Proper.compileMarkup_expression (proper : Proper entries) (leaves : compiler.blocks.LeavesView)
    (plain : IsPlainText name) (known : context.lookup.find? name context.home = some view) :
    compiler.compileMarkup context (expression name entries) = .ok [.view view (bag entries)] := by
  have source : expression name entries =
      String.ofList (['{', '{'] ++ (content name entries ++ ['}', '}'])) := by
    simp [expression, content]
  rw [source]
  refine Compiler.compileMarkup_expression (proper.not_mem_content plain (by decide) (by decide))
    (proper.not_mem_content plain (by decide) (by decide)) (proper.encloses_content plain)
    (by simp [content, Text.isBlank]) (proper.parse_content leaves plain) ?_
  simp only [Compiler.addPiece, Compiler.addExpression, Marks.plain, if_true,
    ViewContext.viewExpression, pure_bind, proper.ofExpr_members, ViewContext.findView, known]
  rfl

end Reference

end Stencil
