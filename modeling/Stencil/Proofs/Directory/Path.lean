import Mathlib.Data.List.TakeWhile
import Stencil.Embed.Expansion

/-! Paths of embedded files, and the names of their views.

Below a directory, a path gives back the place that it was made from. The name of a
view has the names of the place in it, as long as none of them has a colon.
-/

set_option autoImplicit false

namespace Stencil

theorem ne_colon_of_mem_reverse {name : String} (colonFree : ':' ∉ name.toList) :
    ∀ c ∈ name.toList.reverse, (c != ':') = true := fun c member => by
  simpa using fun same : c = ':' => colonFree (same ▸ List.mem_reverse.1 member)

/-- A colon before a text without one ends what encloses it. -/
theorem enclosing?_append {last : String} (colonFree : ':' ∉ last.toList) (outer : String) :
    enclosing? (outer ++ ":" ++ last) = some outer := by
  have split : (outer ++ ":" ++ last).toList.reverse =
      last.toList.reverse ++ ':' :: outer.toList.reverse := by
    simp
  rw [enclosing?, split, List.dropWhile_append_of_pos (ne_colon_of_mem_reverse colonFree)]
  simp

theorem enclosing?_eq_none {name : String} (colonFree : ':' ∉ name.toList) :
    enclosing? name = none := by
  rw [enclosing?, List.dropWhile_eq_nil_iff.2 (ne_colon_of_mem_reverse colonFree)]

theorem intercalate_ne_empty {mark : String} {parts : List String} (some : parts ≠ [])
    (filled : ∀ part ∈ parts, part ≠ "") : mark.intercalate parts ≠ "" := by
  cases parts with
  | nil => exact absurd rfl some
  | cons first rest =>
      have here := filled first List.mem_cons_self
      cases rest with
      | nil => simpa using here
      | cons second later => simp [String.intercalate_cons_cons, here]

theorem intercalate_concat {mark : String} {parts : List String} (some : parts ≠ []) (last : String) :
    mark.intercalate (parts ++ [last]) = mark.intercalate parts ++ mark ++ last := by
  rw [String.intercalate_append_of_ne_nil some (by simp), String.intercalate_singleton]

/-- What encloses the last of some parts is the parts before it. -/
theorem enclosing?_intercalate (outer : List String) {last : String} (colonFree : ':' ∉ last.toList) :
    enclosing? (":".intercalate (outer ++ [last])) =
      if outer = [] then none else some (":".intercalate outer) := by
  split
  · subst outer
    simpa using enclosing?_eq_none colonFree
  · rename_i inside
    rw [intercalate_concat inside]
    exact enclosing?_append colonFree _

/-- Texts without the mark that joins them can be told apart. -/
theorem intercalate_inj (mark : Char) {first second : List String}
    (free : ∀ name ∈ first, mark ∉ name.toList) (others : ∀ name ∈ second, mark ∉ name.toList)
    (some : first ≠ []) (more : second ≠ [])
    (same : (String.singleton mark).intercalate first = (String.singleton mark).intercalate second) :
    first = second := by
  have joined := congrArg String.toList same
  simp only [String.toList_intercalate, String.toList_singleton] at joined
  have texts := congrArg (List.splitOn mark) joined
  rw [List.splitOn_intercalate mark (by simpa using free) (by simpa using some),
    List.splitOn_intercalate mark (by simpa using others) (by simpa using more)] at texts
  exact (List.map_inj_right fun _ _ => String.toList_inj.1).1 texts

namespace Embed

/-- What a file or a directory can be called. -/
structure IsFileName (name : String) : Prop where
  ne_empty : name ≠ ""
  slashFree : '/' ∉ name.toList
  ne_current : name ≠ "."
  ne_parent : name ≠ ".."

instance (name : String) : Decidable (IsFileName name) :=
  decidable_of_iff (name ≠ "" ∧ '/' ∉ name.toList ∧ name ≠ "." ∧ name ≠ "..")
    ⟨fun ⟨filled, free, current, parent⟩ => ⟨filled, free, current, parent⟩,
      fun ⟨filled, free, current, parent⟩ => ⟨filled, free, current, parent⟩⟩

/-- The name has no colon and does not start with a dot. -/
structure IsPlainName (name : String) : Prop where
  colonFree : ':' ∉ name.toList
  undotted : name.toList.head? ≠ some '.'

instance (name : String) : Decidable (IsPlainName name) :=
  decidable_of_iff (':' ∉ name.toList ∧ name.toList.head? ≠ some '.')
    ⟨fun ⟨free, first⟩ => ⟨free, first⟩, fun ⟨free, first⟩ => ⟨free, first⟩⟩

/-! Paths -/

theorem segments_append (before after : String) :
    segments (before ++ "/" ++ after) = segments before ++ segments after := by
  simp [segments, List.splitOn_append_cons_self]

theorem segments_intercalate {place : List String} (names : ∀ name ∈ place, IsFileName name)
    (nonempty : place ≠ []) : segments ("/".intercalate place) = place := by
  have free : ∀ text ∈ place.map String.toList, '/' ∉ text := by
    simpa using fun name member => (names name member).slashFree
  have split := List.splitOn_intercalate '/' free (by simpa using nonempty)
  simp [segments, String.toList_intercalate, split, Function.comp_def]

/-- Of the segments after the first, those count that name something. -/
theorem components_eq {path first : String} {rest : List String} (nonempty : path ≠ "")
    (split : segments path = first :: rest) :
    components path = (if first = "" then "/" else first) ::
      rest.filter fun segment => segment != "" && segment != "." := by
  rw [components, split]
  by_cases top : first = ""
  · simp [top, nonempty]
  · simp [top]

theorem segments_ne_nil (path : String) : segments path ≠ [] := by
  simp [segments]

/-- Two paths that begin alike, the one with names after that and the other with none. -/
theorem components_extend {directory path : String} {start blanks place : List String}
    (some : start ≠ []) (split : segments directory = start ++ blanks) (nonempty : directory ≠ "")
    (empty : ∀ segment ∈ blanks, segment = "") (longer : segments path = start ++ place) (more : path ≠ "")
    (names : ∀ name ∈ place, IsFileName name) : components path = components directory ++ place := by
  have dropped : (blanks.filter fun segment => segment != "" && segment != ".") = [] :=
    List.filter_eq_nil_iff.2 fun segment member => by simp [empty segment member]
  have kept : (place.filter fun segment => segment != "" && segment != ".") = place :=
    List.filter_eq_self.2 fun name member => by
      simp [(names name member).ne_empty, (names name member).ne_current]
  cases start with
  | nil => exact absurd rfl some
  | cons first rest =>
      rw [List.cons_append] at split longer
      rw [components_eq nonempty split, components_eq more longer]
      simp only [List.filter_append, dropped, kept, List.append_nil, List.cons_append]

theorem exists_of_endsWith {path : String} (ends : path.endsWith "/" = true) :
    ∃ before, path = before ++ "/" := by
  rw [String.endsWith_eq_endsWith_toSlice, String.Slice.endsWith_string_iff] at ends
  obtain ⟨before, same⟩ := ends
  refine ⟨String.ofList before, ?_⟩
  rw [← String.toList_inj]
  simpa using same.symm

theorem segments_slash (before : String) : segments (before ++ "/") = segments before ++ [""] := by
  simpa [segments] using segments_append before ""

theorem components_pathBelow {directory : String} {place : List String} (nonempty : directory ≠ "")
    (names : ∀ name ∈ place, IsFileName name) (inside : place ≠ []) :
    components (pathBelow directory place) = components directory ++ place := by
  have inner := segments_intercalate names inside
  unfold pathBelow
  split
  · rename_i ends
    -- The directory ends in the slash that goes before the place.
    obtain ⟨before, rfl⟩ := exists_of_endsWith ends
    exact components_extend (segments_ne_nil before) (segments_slash before) nonempty (by simp)
      (by rw [segments_append, inner]) (by simp) names
  · exact components_extend (segments_ne_nil directory) (List.append_nil _).symm nonempty (by simp)
      (by rw [segments_append, inner]) (by simp) names

/-- The name of a view is made from the place of its file alone. -/
theorem viewName?_pathBelow {directory : String} {place : List String} (nonempty : directory ≠ "")
    (names : ∀ name ∈ place, IsFileName name) (inside : place ≠ []) :
    viewName? directory (pathBelow directory place) = some (joinName place) := by
  rw [viewName?, components_pathBelow nonempty names inside, Text.strip?_append]
  rfl

theorem joined_of_relative {argument : String} (relative : isAbsolute argument = false) (top : String) :
    joined top argument = top ++ "/" ++ argument := by
  rw [joined, relative]
  rfl

theorem joined_ne_empty (top argument : String) : joined top argument ≠ "" := by
  cases absolute : isAbsolute argument with
  | false => simp [joined_of_relative absolute]
  | true =>
      rw [joined, absolute, if_pos rfl]
      rintro rfl
      exact absurd absolute (by decide)

/-! Extensions -/

theorem splitExtension_html {stem : String} (nonempty : stem ≠ "") :
    splitExtension (stem ++ ".html") = (stem, some "html") := by
  have backward : (stem ++ ".html").toList.reverse = 'l' :: 'm' :: 't' :: 'h' :: '.' :: stem.toList.reverse := by
    simp
  have differs : stem ++ ".html" ≠ ".." := fun same => by
    simpa [same] using congrArg List.head? backward
  cases reversed : stem.toList.reverse with
  | nil => exact absurd reversed (by simpa using nonempty)
  | cons c before =>
      have whole : stem.toList = before.reverse ++ [c] := by
        simpa using congrArg List.reverse reversed
      simp [splitExtension, differs, reversed, ← whole]

theorem exists_stem_of_html {name : String} (found : (splitExtension name).2 = some "html") :
    ∃ stem, stem ≠ "" ∧ name = stem ++ ".html" := by
  unfold splitExtension at found
  split at found
  · simp at found
  · have parts := List.takeWhile_append_dropWhile (p := (· != '.')) (l := name.toList.reverse)
    dsimp only at found
    split at found
    · simp at found
    · simp at found
    · rename_i dot before other dropped
      have stop : dot = '.' := by
        have first := List.head?_dropWhile_not (· != '.') name.toList.reverse
        simpa [dropped] using first
      refine ⟨String.ofList before.reverse, by simpa using other, ?_⟩
      rw [← String.toList_inj]
      have ending : (name.toList.reverse.takeWhile (· != '.')).reverse = "html".toList := by
        simpa [← String.toList_inj] using found
      rw [dropped, stop] at parts
      have whole := congrArg List.reverse parts
      simp only [List.reverse_append, List.reverse_reverse, ending] at whole
      simpa using whole.symm

/-! Names of places -/

theorem isTemplate_iff {file : File} :
    isTemplate file = true ↔ ∃ outer stem, stem ≠ "" ∧ file.place = outer ++ [stem ++ ".html"] := by
  unfold isTemplate
  constructor
  · intro template
    obtain ⟨last, final, html⟩ := (Option.any_eq_true _ _).1 template
    obtain ⟨stem, nonempty, rfl⟩ := exists_stem_of_html (by simpa using html)
    obtain ⟨outer, same⟩ := List.getLast?_eq_some_iff.1 final
    exact ⟨outer, stem, nonempty, same⟩
  · rintro ⟨outer, stem, nonempty, same⟩
    simp [same, splitExtension_html nonempty]

theorem joinName_append (outer : List String) (last : String) :
    joinName (outer ++ [last]) = ":".intercalate (outer ++ [withoutExtension last]) := by
  induction outer with
  | nil => simp [joinName]
  | cons first rest ih =>
      have inside : rest ++ [withoutExtension last] ≠ [] := by simp
      rw [List.cons_append, List.cons_append, String.intercalate_cons_of_ne_nil inside, ← ih]
      cases rest <;> rfl

theorem withoutExtension_html {stem : String} (nonempty : stem ≠ "")
    (undotted : stem.toList.head? ≠ some '.') : withoutExtension (stem ++ ".html") = stem := by
  have html := splitExtension_html nonempty
  have ordinary : stem ++ ".html" ∉ ["/", ".", ".."] := by
    intro special
    have bare : ∀ name ∈ ["/", ".", ".."], (splitExtension name).2 = none := by decide
    exact absurd (congrArg Prod.snd html) (by simp [bare _ special])
  have apart : stem ≠ "." := fun same => undotted (by simp [same])
  rw [withoutExtension, if_neg ordinary, html]
  simp [apart]

/-- The plain name of a template without its extension. -/
theorem IsPlainName.stem {stem : String} (plain : IsPlainName (stem ++ ".html")) :
    IsPlainName stem where
  colonFree := fun member => plain.colonFree (by simp [member])
  undotted := fun first => plain.undotted (by simp [List.head?_append, first])

theorem colonFree_of_plain {outer : List String} {stem : String}
    (plain : ∀ name ∈ outer ++ [stem ++ ".html"], IsPlainName name) :
    ∀ part ∈ outer ++ [stem], ':' ∉ part.toList := by
  intro part member
  rcases List.mem_append.1 member with among | final
  · exact (plain part (List.mem_append_left _ among)).colonFree
  · rw [List.mem_singleton.1 final]
    exact (plain (stem ++ ".html") (by simp)).stem.colonFree

/-- The name of a view tells where its file is. -/
theorem joinName_eq_iff {file : File} (template : isTemplate file = true)
    (plain : ∀ name ∈ file.place, IsPlainName name) {outer : List String} {name : String}
    (free : ∀ part ∈ outer ++ [name], ':' ∉ part.toList) :
    joinName file.place = ":".intercalate (outer ++ [name]) ↔ file.place = outer ++ [name ++ ".html"] := by
  obtain ⟨inner, stem, nonempty, placed⟩ := isTemplate_iff.1 template
  rw [placed] at plain ⊢
  have last : IsPlainName (stem ++ ".html") := plain _ (by simp)
  rw [joinName_append, withoutExtension_html nonempty last.stem.undotted]
  constructor
  · intro same
    have places := intercalate_inj ':' (colonFree_of_plain plain) free (by simp) (by simp) same
    obtain ⟨rfl, single⟩ := List.append_inj' places rfl
    obtain rfl := List.singleton_inj.1 single
    rfl
  · intro same
    obtain ⟨rfl, single⟩ := List.append_inj' same rfl
    obtain rfl := (String.append_left_inj _).1 (List.singleton_inj.1 single)
    rfl

theorem place_eq_of_joinName_eq {first second : File} (template : isTemplate first = true)
    (html : isTemplate second = true) (plain : ∀ name ∈ first.place, IsPlainName name)
    (others : ∀ name ∈ second.place, IsPlainName name)
    (same : joinName first.place = joinName second.place) : first.place = second.place := by
  obtain ⟨outer, stem, -, placed⟩ := isTemplate_iff.1 html
  have free := colonFree_of_plain (placed ▸ others)
  rw [(joinName_eq_iff html others free).2 placed] at same
  rw [placed]
  exact (joinName_eq_iff template plain free).1 same

end Embed

end Stencil
