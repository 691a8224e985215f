import Stencil.Proofs.Directory.Path

/-! Trees of files, and the files below a directory of a tree. -/

set_option autoImplicit false

namespace Stencil.Embed

namespace FileTree

/-- The files that a path leads into, with their places below it. -/
def inside (tree : FileTree) (relative : String) : List File :=
  ((tree.directory? relative).map tree.below).getD []

/-- The files of a directory that are embedded. -/
def templates (tree : FileTree) (relative : String) : List File :=
  (tree.inside relative).filter isTemplate

/-- The text that a path below a top leads to. -/
def included? (tree : FileTree) (top path : String) : Option String :=
  (Text.strip? (top ++ "/").toList path.toList).bind fun rest =>
    ((tree.walk [] (segments (String.ofList rest))).bind tree.fileAt?).bind File.text?

/-- Files have names that can stand in paths, and a place has one file. -/
structure Sound (tree : FileTree) : Prop where
  named : ∀ file ∈ tree.files, ∀ name ∈ file.place, IsFileName name
  single : ∀ first ∈ tree.files, ∀ second ∈ tree.files, first.place = second.place → first = second

theorem Sound.empty : empty.Sound where
  named := fun _ member => absurd member (by simp [FileTree.empty])
  single := fun _ member => absurd member (by simp [FileTree.empty])

theorem Sound.addFile {tree : FileTree} (sound : tree.Sound) {place : List String}
    (names : ∀ name ∈ place, IsFileName name) (content : ByteArray) :
    (tree.addFile place content).Sound where
  named := by
    intro file member
    rcases List.mem_append.1 member with old | new
    · exact sound.named file (List.mem_filter.1 old).1
    · exact List.mem_singleton.1 new ▸ names
  single := by
    have apart : ∀ file ∈ tree.files.filter (·.place != place), file.place ≠ place :=
      fun file member => by simpa using (List.mem_filter.1 member).2
    intro first member second among same
    rcases List.mem_append.1 member with old | new <;> rcases List.mem_append.1 among with older | newer
    · exact sound.single first (List.mem_filter.1 old).1 second (List.mem_filter.1 older).1 same
    · exact absurd (same.trans (congrArg File.place (List.mem_singleton.1 newer))) (apart first old)
    · exact absurd (same.symm.trans (congrArg File.place (List.mem_singleton.1 new))) (apart second older)
    · exact (List.mem_singleton.1 new).trans (List.mem_singleton.1 newer).symm

theorem Sound.addDirectory {tree : FileTree} (sound : tree.Sound) (place : List String) :
    (tree.addDirectory place).Sound :=
  ⟨sound.named, sound.single⟩

theorem mem_below {tree : FileTree} {directory : List String} {file : File} :
    file ∈ tree.below directory ↔
      file.place ≠ [] ∧ ⟨directory ++ file.place, file.content⟩ ∈ tree.files := by
  obtain ⟨place, content⟩ := file
  simp only [below, List.mem_mergeSort, List.mem_filterMap]
  constructor
  · rintro ⟨⟨whole, bytes⟩, member, found⟩
    split at found
    · rename_i name rest stripped
      obtain ⟨rfl, rfl⟩ := File.mk.inj (Option.some.inj found)
      exact ⟨by simp, (Text.strip?_eq_some_iff.1 stripped) ▸ member⟩
    · simp at found
  · rintro ⟨nonempty, member⟩
    refine ⟨_, member, ?_⟩
    cases place with
    | nil => exact absurd rfl nonempty
    | cons name rest => simp

theorem mem_inside {tree : FileTree} {relative : String} {file : File} :
    file ∈ tree.inside relative ↔
      ∃ directory, tree.directory? relative = some directory ∧ file ∈ tree.below directory := by
  unfold inside
  cases tree.directory? relative with
  | none => simp
  | some directory => simp

theorem walk_append (tree : FileTree) (place : List String) (first second : List String) :
    tree.walk place (first ++ second) = (tree.walk place first).bind (tree.walk · second) := by
  induction first generalizing place with
  | nil => rfl
  | cons segment rest ih =>
      simp only [List.cons_append, walk, ih]
      split
      · rfl
      split
      · rfl
      split
      · split <;> rfl
      · rfl

@[simp] theorem included?_append (tree : FileTree) (top rest : String) :
    tree.included? top (top ++ "/" ++ rest) =
      ((tree.walk [] (segments rest)).bind tree.fileAt?).bind File.text? := by
  rw [included?, String.toList_append (s := top ++ "/"), Text.strip?_append]
  simp

theorem place?_eq_some_iff {tree : FileTree} {path : String} {place : List String} :
    tree.place? path = some place ↔
      isAbsolute path = false ∧ tree.walk [] (segments path) = some place := by
  cases absolute : isAbsolute path <;> simp [place?, absolute]

theorem eq_or_exists_of_joined {top relative before : String}
    (same : top ++ "/" ++ relative = before ++ "/") : relative = "" ∨ ∃ start, relative = start ++ "/" := by
  rcases List.eq_nil_or_concat relative.toList with bare | ⟨start, last, whole⟩
  · exact Or.inl (String.toList_eq_nil_iff.1 bare)
  · have texts := congrArg String.toList same
    simp only [String.toList_append, whole, List.concat_eq_append, ← List.append_assoc] at texts
    obtain ⟨-, ends⟩ := List.append_inj' texts rfl
    refine Or.inr ⟨String.ofList start, ?_⟩
    rw [← String.toList_inj, whole, List.concat_eq_append, ends]
    simp

/-- A walk by the names of a file's place ends there. -/
theorem walk_place {tree : FileTree} {place rest : List String} {content : ByteArray}
    (there : ⟨place ++ rest, content⟩ ∈ tree.files) (names : ∀ name ∈ rest, IsFileName name) :
    tree.walk place rest = some (place ++ rest) := by
  induction rest generalizing place with
  | nil => simp [walk]
  | cons name later ih =>
      obtain ⟨nonempty, -, current, parent⟩ := names name List.mem_cons_self
      have holds : tree.isDirectory place = true := by
        have under : (tree.files.any fun file => place.isPrefixOf file.place && place != file.place) = true :=
          List.any_eq_true.2 ⟨_, there, by simp⟩
        simp [isDirectory, under]
      have next : tree.walk (place ++ [name]) later = some (place ++ [name] ++ later) :=
        ih (by simpa using there) fun part member => names part (List.mem_cons_of_mem name member)
      simpa [walk, holds, nonempty, current, parent] using next

section

variable {tree : FileTree} (sound : tree.Sound) {relative : String}

include sound

theorem Sound.isFileName {file : File} (member : file ∈ tree.inside relative) :
    ∀ name ∈ file.place, IsFileName name := by
  obtain ⟨directory, -, there⟩ := mem_inside.1 member
  intro name part
  exact sound.named _ (mem_below.1 there).2 name (List.mem_append_right _ part)

theorem Sound.eq_of_place_eq {first second : File} (member : first ∈ tree.inside relative)
    (among : second ∈ tree.inside relative) (same : first.place = second.place) : first = second := by
  obtain ⟨directory, found, there⟩ := mem_inside.1 member
  obtain ⟨other, found', there'⟩ := mem_inside.1 among
  obtain rfl := Option.some.inj (found.symm.trans found')
  have whole := sound.single _ (mem_below.1 there).2 _ (mem_below.1 there').2 (by simp [same])
  have content : first.content = second.content := (File.mk.inj whole).2
  cases first
  cases second
  exact congr (congrArg File.mk same) content

/-- Below a directory, the name of a view is made from the place of its file alone. -/
theorem Sound.viewName?_eq {file : File} (member : file ∈ tree.inside relative) {directory : String}
    (nonempty : directory ≠ "") :
    viewName? directory (pathBelow directory file.place) = some (joinName file.place) := by
  obtain ⟨_, -, there⟩ := mem_inside.1 member
  exact viewName?_pathBelow nonempty (sound.isFileName member) (mem_below.1 there).1

/-- From where a directory is, the place of a file below it leads to the file. -/
theorem Sound.fileAt?_walk {directory : List String} {file : File} (there : file ∈ tree.below directory)
    {path : String} {first : List String} (split : segments path = first ++ file.place)
    (leads : tree.walk [] first = some directory) :
    (tree.walk [] (segments path)).bind tree.fileAt? =
      some ⟨directory ++ file.place, file.content⟩ := by
  have present := (mem_below.1 there).2
  have names : ∀ name ∈ file.place, IsFileName name :=
    fun name part => sound.named _ present name (List.mem_append_right _ part)
  rw [split, walk_append, leads, Option.bind_some, walk_place present names, Option.bind_some, fileAt?]
  cases found : tree.files.find? (·.place == directory ++ file.place) with
  | none => exact absurd (List.find?_eq_none.1 found _ present) (by simp)
  | some other =>
      have same : other.place = directory ++ file.place := by simpa using List.find?_some found
      rw [sound.single _ (List.mem_of_find?_eq_some found) _ present same]

/-- The path of a file below a directory leads to the text of the file. -/
theorem Sound.included?_pathBelow (top : String) {file : File} (member : file ∈ tree.inside relative) :
    tree.included? top (pathBelow (joined top relative) file.place) = file.text? := by
  obtain ⟨directory, found, there⟩ := mem_inside.1 member
  have inner := segments_intercalate (sound.isFileName member) (mem_below.1 there).1
  obtain ⟨below, leads⟩ := place?_eq_some_iff.1 (Option.filter_eq_some_iff.1 found).1
  rw [joined_of_relative below]
  suffices below : ∃ rest first, pathBelow (top ++ "/" ++ relative) file.place = top ++ "/" ++ rest ∧
      segments rest = first ++ file.place ∧ tree.walk [] first = some directory by
    obtain ⟨rest, first, same, split, walked⟩ := below
    rw [same, included?_append, sound.fileAt?_walk there split walked]
    rfl
  unfold pathBelow
  split
  · rename_i ends
    obtain ⟨before, same⟩ := exists_of_endsWith ends
    rcases eq_or_exists_of_joined same with rfl | ⟨start, rfl⟩
    · -- The path of the directory is the top, which has a slash after it.
      refine ⟨"/".intercalate file.place, [], by simp, inner, ?_⟩
      simpa [segments, walk, isDirectory] using leads
    · refine ⟨start ++ "/" ++ "/".intercalate file.place, segments start, by simp [String.append_assoc],
        by rw [segments_append, inner], ?_⟩
      rw [segments_slash, walk_append] at leads
      obtain ⟨place, walked, ended⟩ := Option.bind_eq_some_iff.1 leads
      rw [walked]
      -- The empty segment after the slash leads nowhere else.
      simp only [walk] at ended
      split at ended
      · simp at ended
      · simpa using ended
  · exact ⟨relative ++ "/" ++ "/".intercalate file.place, segments relative,
      by simp [String.append_assoc], by rw [segments_append, inner], leads⟩

end

end FileTree

end Stencil.Embed
