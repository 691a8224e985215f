import Stencil.Proofs.Directory
import Stencil.Proofs.Registry.FullNames

/-! References between the views of a directory.

A name is looked up in the namespace of a view and outwards from there. In a directory
without colons in its names, that is a search of the folders around the file, from the
innermost one to the directory itself.
-/

set_option autoImplicit false

namespace Stencil

namespace Registry

/-- From a view in some folders, a name may stand for a view in each of them, the
innermost first. -/
theorem candidatesFrom_intercalate {folders : List String}
    (filled : ∀ folder ∈ folders, folder ≠ "") (free : ∀ folder ∈ folders, ':' ∉ folder.toList)
    {last : String} (colonFree : ':' ∉ last.toList) (name : String) :
    candidatesFrom name (enclosing? (":".intercalate (folders ++ [last]))) =
      folders.inits.reverse.map fun outer => ":".intercalate (outer ++ [name]) := by
  rw [enclosing?_intercalate folders colonFree]
  split
  · rename_i top
    subst top
    simp [candidatesFrom]
  · rename_i inside
    have home : ":".intercalate folders ≠ "" := intercalate_ne_empty inside filled
    rw [candidatesFrom, if_neg (by simpa using home), candidates_intercalate name inside free]

/-- From a view in some folders, a name stands for the view in the innermost of them that
has it. -/
theorem find?_intercalate (registry : Registry) {folders : List String}
    (filled : ∀ folder ∈ folders, folder ≠ "") (free : ∀ folder ∈ folders, ':' ∉ folder.toList)
    {last : String} (colonFree : ':' ∉ last.toList) (name : String) :
    registry.find? name (enclosing? (":".intercalate (folders ++ [last]))) =
      folders.inits.reverse.findSome? fun outer =>
        registry.names.find? (":".intercalate (outer ++ [name])) := by
  rw [find?, candidatesFrom_intercalate filled free colonFree, List.findSome?_map]
  rfl

end Registry

namespace Embed

/-- The file of a name in the innermost of some folders that has one. -/
def nearest? (files : List File) (folders : List String) (name : String) : Option File :=
  folders.inits.reverse.findSome? fun outer => files.find? (·.place == outer ++ [name])

/-- The view is what is registered for the file. -/
def Shows (directory : String) (view : View) (file : File) : Prop :=
  ∃ read, readView directory file = .ok read ∧ view = read.view

theorem findSome?_rel {α β γ : Type} {related : β → γ → Prop} {first : α → Option β}
    {second : α → Option γ} {items : List α}
    (alike : ∀ item ∈ items, Option.Rel related (first item) (second item)) :
    Option.Rel related (items.findSome? first) (items.findSome? second) := by
  induction items with
  | nil => exact .none
  | cons item rest ih =>
      have later := ih fun other member => alike other (List.mem_cons_of_mem item member)
      have here := alike item List.mem_cons_self
      rw [List.findSome?_cons, List.findSome?_cons]
      cases left : first item <;> cases right : second item <;> rw [left, right] at here
      · exact later
      · cases here
      · cases here
      · exact here

section

variable {tree : FileTree} {top relative : String} {views : List ViewFile}

/-- The name of a place stands for the file at the place. -/
theorem find?_names_place (sound : tree.Sound) (expanded : directoryViews tree top relative = .ok views)
    (plain : ∀ file ∈ tree.templates relative, ∀ name ∈ file.place, IsPlainName name)
    {folders : List String} {name : String} (free : ∀ part ∈ folders ++ [name], ':' ∉ part.toList)
    (nonempty : name ≠ "") :
    Option.Rel (Shows (joined top relative))
      ((registryOf views).names.find? (":".intercalate (folders ++ [name])))
      ((tree.inside relative).find? (·.place == folders ++ [name ++ ".html"])) := by
  obtain ⟨-, read, -⟩ := directoryViews_eq_ok_iff.1 expanded
  have named {file : File} {view : ViewFile} (member : file ∈ tree.templates relative)
      (made : readView (joined top relative) file = .ok view) :
      view.name = ":".intercalate (folders ++ [name]) ↔ file.place = folders ++ [name ++ ".html"] := by
    obtain ⟨present, template⟩ := List.mem_filter.1 member
    rw [name_eq_joinName sound present made]
    exact joinName_eq_iff template (plain file member) free
  rw [find?_names_registryOf]
  cases found : views.reverse.find? (·.name == ":".intercalate (folders ++ [name])) with
  | some last =>
      obtain ⟨file, member, made⟩ :=
        exists_related read.flip (List.mem_reverse.1 (List.mem_of_find?_eq_some found))
      have placed := (named member made).1 (by simpa using List.find?_some found)
      have present := (List.mem_filter.1 member).1
      cases there : (tree.inside relative).find? (·.place == folders ++ [name ++ ".html"]) with
      | none => exact absurd (List.find?_eq_none.1 there file present) (by simp [placed])
      | some other =>
          have same : other.place = file.place := by
            simpa [placed] using List.find?_some there
          rw [sound.eq_of_place_eq (List.mem_of_find?_eq_some there) present same]
          exact .some ⟨last, made, rfl⟩
  | none =>
      cases there : (tree.inside relative).find? (·.place == folders ++ [name ++ ".html"]) with
      | none => exact .none
      | some file =>
          have placed : file.place = folders ++ [name ++ ".html"] := by
            simpa using List.find?_some there
          have member : file ∈ tree.templates relative := List.mem_filter.2
            ⟨List.mem_of_find?_eq_some there, isTemplate_iff.2 ⟨folders, name, nonempty, placed⟩⟩
          obtain ⟨view, among, made⟩ := exists_related read member
          have same := (named member made).2 placed
          exact absurd (List.find?_eq_none.1 found view (List.mem_reverse.2 among)) (by simp [same])

/-- From the view of a file, a name stands for the file of that name in the innermost
folder around the file that has one. -/
theorem find?_nearest (sound : tree.Sound) (expanded : directoryViews tree top relative = .ok views)
    (plain : ∀ file ∈ tree.templates relative, ∀ name ∈ file.place, IsPlainName name)
    {file : File} (member : file ∈ tree.templates relative) {name : String} (nonempty : name ≠ "")
    (colonFree : ':' ∉ name.toList) :
    ∃ view, readView (joined top relative) file = .ok view ∧
      Option.Rel (Shows (joined top relative))
        ((generatedRegistry tree top views).lookup.find? name view.view.home?)
        (nearest? (tree.inside relative) file.place.dropLast (name ++ ".html")) := by
  obtain ⟨-, read, -⟩ := directoryViews_eq_ok_iff.1 expanded
  obtain ⟨view, among, made⟩ := exists_related read member
  obtain ⟨present, template⟩ := List.mem_filter.1 member
  obtain ⟨folders, stem, filled, placed⟩ := isTemplate_iff.1 template
  have names := placed ▸ sound.isFileName present
  have free := colonFree_of_plain (placed ▸ plain file member)
  -- The namespace of the view is the folders around the file.
  have full : view.name = ":".intercalate (folders ++ [stem]) := by
    rw [name_eq_joinName sound present made]
    exact (joinName_eq_iff template (plain file member) free).2 placed
  have folderFree : ∀ folder ∈ folders, ':' ∉ folder.toList :=
    fun folder part => free folder (List.mem_append_left _ part)
  have folderFilled : ∀ folder ∈ folders, folder ≠ "" :=
    fun folder part => (names folder (List.mem_append_left _ part)).ne_empty
  refine ⟨view, made, ?_⟩
  rw [generatedRegistry_eq sound expanded, nearest?, placed, List.dropLast_concat]
  change Option.Rel _ ((registryOf views).find? name (enclosing? view.name)) _
  rw [full, Registry.find?_intercalate _ folderFilled folderFree (free stem (by simp))]
  refine findSome?_rel fun outer around => find?_names_place sound expanded plain ?_ nonempty
  have above := (List.mem_inits _ _).1 (List.mem_reverse.1 around)
  intro part among
  rcases List.mem_append.1 among with folder | final
  · exact folderFree part (above.subset folder)
  · exact List.mem_singleton.1 final ▸ colonFree

end

theorem plain_blogTree :
    ∀ file ∈ blogTree.templates "pages", ∀ name ∈ file.place, IsPlainName name := by
  rw [templates_blogTree]
  decide

/-- The card of the blog hides the one around it. -/
theorem find?_nearest_blogTree :
    nearest? (blogTree.inside "pages") ["blog", "posts"] "card.html" =
        some ⟨["blog", "card.html"], "inner".toUTF8⟩ ∧
      (generatedRegistry blogTree "top" blogViews).lookup.find? "card" (some "blog:posts") =
        some (.ofSource "blog:card" "inner" {}) := by
  have post : ⟨["blog", "posts", "show.html"], "post".toUTF8⟩ ∈ blogTree.templates "pages" := by
    rw [templates_blogTree]
    simp
  have card : nearest? (blogTree.inside "pages") ["blog", "posts"] "card.html" =
      some ⟨["blog", "card.html"], "inner".toUTF8⟩ := by
    cbv
  refine ⟨card, ?_⟩
  obtain ⟨view, read, found⟩ := find?_nearest blogTree_sound directoryViews_blogTree plain_blogTree post
    (show "card" ≠ "" by decide) (by decide)
  have made : readView (joined "top" "pages") ⟨["blog", "posts", "show.html"], "post".toUTF8⟩ =
      .ok ⟨"blog:posts:show", "post", "top/pages/blog/posts/show.html"⟩ := by
    cbv
  have given : readView (joined "top" "pages") ⟨["blog", "card.html"], "inner".toUTF8⟩ =
      .ok ⟨"blog:card", "inner", "top/pages/blog/card.html"⟩ := by
    cbv
  obtain rfl := Except.ok.inj (made.symm.trans read)
  have home : (View.ofSource "blog:posts:show" "post" {}).home? = some "blog:posts" := by cbv
  change Option.Rel _ ((generatedRegistry blogTree "top" blogViews).lookup.find? "card"
    (View.ofSource "blog:posts:show" "post" {}).home?)
    (nearest? (blogTree.inside "pages") ["blog", "posts"] "card.html") at found
  rw [home, card] at found
  generalize (generatedRegistry blogTree "top" blogViews).lookup.find? "card" (some "blog:posts") = result at found ⊢
  cases found with
  | some shown =>
      obtain ⟨file, there, rfl⟩ := shown
      obtain rfl := Except.ok.inj (given.symm.trans there)
      rfl

end Embed

end Stencil
