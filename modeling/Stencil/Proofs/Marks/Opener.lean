import Stencil.Proofs.Marks.Alias

/-! The word that opens a block, and the path and the alias after it.

Of the words that a blank follows at the start of a source the longest one is read, however the
words begin one another. The text after its blanks ends in at most one alias.
-/

set_option autoImplicit false

namespace Stencil

namespace Expression

/-- The result is the tree of a path under some marks. Where the path does not read, it is the
fault of the path, and the message goes on with the source. -/
structure Yields (result : Except Failure Expression) (marks : Marks) (path : List Char) : Prop where
  tree : ∀ tree, Expr.parse (String.ofList path) = .ok tree → result = .ok ⟨tree, marks⟩
  fault : ∀ fault, Expr.parse (String.ofList path) = .error fault →
    ∃ failure, result = .error failure ∧ failure.cause = .syntaxError fault ∧
      failure.message = fault.message ++ "\n\nWithin expression: " ++ marks.source

theorem yields_parse {openers : List String} {source : String} {marks : Marks} {path : List Char}
    (read : Marks.read openers (Text.trim source.toList) = (marks, path)) (filled : path ≠ []) :
    Yields (parse openers source) marks path := by
  constructor
  · intro tree parsed
    exact parse_eq_ok_iff.2 ⟨path, read, (pathTree_of_ne_nil filled).trans parsed⟩
  · intro fault refused
    refine ⟨(Failure.of (.syntaxError fault)).within (.expression marks.source), ?_, rfl, ?_⟩
    · simp only [parse, read, pathTree_of_ne_nil filled, refused]
    · rw [Failure.message_within, Failure.message_of, String.append_assoc]
      rfl

/-- Where words that open blocks lead a source, the longest one names its keyword, and what comes
after is its path, up to the alias if there is one. -/
theorem parse_of_leads (blocks : BlockMap) (source : String)
    (leads : ∃ word ∈ blocks.openers, ∃ rest,
      Text.Leads word.toList (Text.trim source.toList) rest) :
    ∃ word rest keyword, Text.Opens blocks.openers (Text.trim source.toList) word rest ∧
      Keyword.Named word keyword ∧
      (∀ other after, Text.Opens blocks.openers (Text.trim source.toList) other after →
        other = word ∧ after = rest) ∧
      (∀ path name, Text.NamesAlias rest path name →
        (∀ before last, Text.NamesAlias rest before last → before = path ∧ last = name) ∧
        Yields (parse blocks.openers source)
          { Marks.opened keyword (trimmed source) with aliasName := some (String.ofList name) } path) ∧
      ((∀ path name, ¬ Text.NamesAlias rest path name) →
        Yields (parse blocks.openers source) (Marks.opened keyword (trimmed source)) rest) := by
  obtain ⟨word, rest, opens⟩ := Text.exists_opens leads
  have whole := Text.trimmed_trim source.toList
  have matched := Text.block?_of_opens whole opens
  refine ⟨word, rest, .ofText word, opens, Keyword.named_iff.2 rfl, fun other after => opens.unique, ?_, ?_⟩
  · intro path name names
    rw [Text.splitPath_of_namesAlias names] at matched
    exact ⟨fun before last => names.unique, yields_parse (Marks.read_of_block matched) names.path.1⟩
  · intro unnamed
    rw [Text.splitPath_of_unnamed unnamed] at matched
    exact yields_parse (Marks.read_of_block matched) (opens.leads.ne_nil whole)

set_option maxRecDepth 20000 in
/-- Of two keywords that lead a source the longer one counts, and of what looks like an alias the
last. The map may have a keyword that begins one with a name of its own. -/
theorem parse_of_leads_event :
    let blocks : BlockMap := .ofEntries [("on", .generic), ("else", .generic), ("on event", .generic)]
    let source := " on event  'a as b'  as #c "
    let later := "else if ready"
    (∃ word ∈ blocks.openers, ∃ rest, Text.Leads word.toList (Text.trim source.toList) rest) ∧
      (∃ word ∈ blocks.openers, ∃ rest, Text.Leads word.toList (Text.trim later.toList) rest) ∧
      parse blocks.openers source = .ok ⟨.literal (.string "a as b"),
        { Marks.opened (.custom "on event") "on event  'a as b'  as #c" with aliasName := some "#c" }⟩ ∧
      parse blocks.openers later = .ok ⟨.ofName "ready", Marks.opened .orElseIf "else if ready"⟩ := by
  intro blocks source later
  have here : Text.trim source.toList = "on event  'a as b'  as #c".toList := by cbv
  have there : Text.trim later.toList = "else if ready".toList := by cbv
  have leads : ∃ word ∈ blocks.openers, ∃ rest,
      Text.Leads word.toList (Text.trim source.toList) rest := by
    rw [here]
    exact ⟨"on", by decide, "event  'a as b'  as #c".toList, Text.leads_iff.2 (by decide)⟩
  have leadsToo : ∃ word ∈ blocks.openers, ∃ rest,
      Text.Leads word.toList (Text.trim later.toList) rest := by
    rw [there]
    exact ⟨"else", by decide, "if ready".toList, Text.leads_iff.2 (by decide)⟩
  refine ⟨leads, leadsToo, ?_, ?_⟩
  · obtain ⟨word, rest, keyword, -, named, unique, aliased, -⟩ := parse_of_leads blocks source leads
    have longest : Text.Opens blocks.openers (Text.trim source.toList) "on event"
        "'a as b'  as #c".toList := by
      rw [here, ← Text.firstWord?_eq_some_iff]
      decide
    obtain ⟨rfl, rfl⟩ := unique _ _ longest
    obtain rfl := Keyword.named_iff.1 named
    have names : Text.NamesAlias "'a as b'  as #c".toList "'a as b'".toList "#c".toList :=
      Text.namesAlias_of_splitAlias? (by decide)
    have whole : trimmed source = "on event  'a as b'  as #c" := by cbv
    have yields := (aliased _ _ names).2
    rw [whole] at yields
    exact yields.tree _ (by cbv)
  · obtain ⟨word, rest, keyword, -, named, unique, -, plain⟩ := parse_of_leads blocks later leadsToo
    have longest : Text.Opens blocks.openers (Text.trim later.toList) "else if" "ready".toList := by
      rw [there, ← Text.firstWord?_eq_some_iff]
      decide
    obtain ⟨rfl, rfl⟩ := unique _ _ longest
    obtain rfl := Keyword.named_iff.1 named
    have whole : trimmed later = "else if ready" := by cbv
    have yields := plain (Text.splitAlias?_eq_none_iff.1 (by decide))
    rw [whole] at yields
    exact yields.tree _ (by cbv)

end Expression

end Stencil
