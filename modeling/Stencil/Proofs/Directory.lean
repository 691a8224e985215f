import Mathlib
import Stencil.Proofs.Directory.Tree
import Stencil.Proofs.Registry

/-! What an embedded directory keeps of its files.

Views are registered, checked and found by their names. Of files whose views have one
name, the last is registered and checked, and the others are not.
-/

set_option autoImplicit false

namespace Stencil.Embed

open List (Forall₂)

/-- The view that is registered for a file. -/
def ViewFile.view (file : ViewFile) : View :=
  .ofSource file.name file.source {}

def ViewFile.registration (file : ViewFile) : Registration :=
  ⟨file.name, file.source, {}⟩

theorem registryOf_eq_ofCalls (views : List ViewFile) :
    registryOf views = Registry.ofCalls (views.map ViewFile.registration) := by
  simp [registryOf, Registry.ofCalls, List.foldl_map, ViewFile.registration]

/-- A name stands for the view of the last file with that name. -/
theorem find?_names_registryOf (views : List ViewFile) (name : String) :
    (registryOf views).names.find? name = (views.reverse.find? (·.name == name)).map ViewFile.view := by
  rw [registryOf_eq_ofCalls, Registry.find?_names_ofCalls, ← List.map_reverse, List.find?_map,
    Option.map_map]
  rfl

theorem checkViews_eq_ok_iff {registry : Registry} {views : List ViewFile} :
    checkViews registry views = .ok () ↔
      ∀ view ∈ views, ∀ failure, registry.compile .standard view.name ≠ some (.error failure) := by
  induction views with
  | nil => simp [checkViews]
  | cons view rest ih =>
      rw [List.forall_mem_cons, ← ih, checkViews]
      split
      · rename_i failure failed
        simp [failed]
      · rename_i fine
        exact ⟨fun passed => ⟨fine, passed⟩, And.right⟩

theorem mapM_eq_ok_iff {ε α β : Type} {step : α → Except ε β} {items : List α} {results : List β} :
    items.mapM step = .ok results ↔ Forall₂ (fun item result => step item = .ok result) items results := by
  induction items generalizing results with
  | nil => simp [pure, Except.pure, eq_comm]
  | cons item rest ih =>
      rw [List.mapM_cons, List.forall₂_cons_left_iff]
      cases first : step item with
      | error fault => simp [bind, Except.bind]
      | ok value =>
          cases later : rest.mapM step with
          | error fault => simp [bind, Except.bind, ← ih, later]
          | ok values => simp [bind, Except.bind, pure, Except.pure, ← ih, later, eq_comm]

/-- Each item of a list is related to some item of a list that it stands beside. -/
theorem exists_related {α β : Type} {related : α → β → Prop} {items : List α} {others : List β}
    (beside : Forall₂ related items others) {item : α} (member : item ∈ items) :
    ∃ other ∈ others, related item other := by
  induction beside with
  | nil => cases member
  | cons here _ ih =>
      rcases List.mem_cons.1 member with rfl | later
      · exact ⟨_, List.mem_cons_self, here⟩
      · obtain ⟨other, present, there⟩ := ih later
        exact ⟨other, List.mem_cons_of_mem _ present, there⟩

/-- A directory is embedded if it is there, all its templates can be read, and what is
registered under their names compiles. -/
theorem directoryViews_eq_ok_iff {tree : FileTree} {top relative : String} {views : List ViewFile} :
    directoryViews tree top relative = .ok views ↔
      (tree.directory? relative).isSome ∧
      Forall₂ (fun file view => readView (joined top relative) file = .ok view)
        (tree.templates relative) views ∧
      ∀ view ∈ views, ∀ failure,
        (registryOf views).compile .standard view.name ≠ some (.error failure) := by
  unfold directoryViews FileTree.templates FileTree.inside
  rw [← mapM_eq_ok_iff, ← checkViews_eq_ok_iff]
  cases tree.directory? relative with
  | none => simp
  | some place =>
      simp only [Option.isSome_some, true_and, Option.map_some, Option.getD_some]
      cases ((tree.below place).filter isTemplate).mapM (readView (joined top relative)) with
      | error fault => simp [bind, Except.bind]
      | ok read =>
          simp only [bind, Except.bind, pure, Except.pure, Except.ok.injEq]
          cases checked : checkViews (registryOf read) read with
          | error fault =>
              simp only [reduceCtorEq, false_iff, not_and]
              rintro rfl
              simp [checked]
          | ok _ =>
              simp only [Except.ok.injEq]
              constructor
              · rintro rfl
                exact ⟨rfl, checked⟩
              · exact And.left

theorem readView_eq_ok_iff {directory : String} {file : File} {view : ViewFile} :
    readView directory file = .ok view ↔
      viewName? directory (pathBelow directory file.place) = some view.name ∧
      file.text? = some view.source ∧ pathBelow directory file.place = view.path := by
  obtain ⟨name, source, path⟩ := view
  simp only [readView]
  cases viewName? directory (pathBelow directory file.place) <;> cases file.text? <;> simp

/-- Below a directory, the name of a view is made from the place of its file. -/
theorem name_eq_joinName {tree : FileTree} (sound : tree.Sound) {top relative : String} {file : File}
    (member : file ∈ tree.inside relative) {view : ViewFile}
    (read : readView (joined top relative) file = .ok view) : view.name = joinName file.place := by
  have named := (readView_eq_ok_iff.1 read).1
  rw [sound.viewName?_eq member (joined_ne_empty top relative)] at named
  exact (Option.some.inj named).symm

/-- Whatever is registered stands for its name, unless a later view takes the name. -/
theorem exists_last_of_mem {views : List ViewFile} {view : ViewFile} (member : view ∈ views) :
    ∃ last ∈ views, last.name = view.name ∧
      (registryOf views).names.find? view.name = some last.view := by
  rw [find?_names_registryOf]
  cases found : views.reverse.find? (·.name == view.name) with
  | none => exact absurd (List.find?_eq_none.1 found view (List.mem_reverse.2 member)) (by simp)
  | some last =>
      exact ⟨last, List.mem_reverse.1 (List.mem_of_find?_eq_some found),
        by simpa using List.find?_some found, rfl⟩

/-- The registry that the generated registrations make: each puts the text that a path
leads to under a name. A path that leads to no text does not build. -/
def generatedRegistry (tree : FileTree) (top : String) (views : List ViewFile) : Registry :=
  views.foldl (fun registry view =>
    registry.register view.name ((tree.included? top view.path).getD "") {}) .empty

/-- The file is read as a view whose source compiles among all views of the directory, and
the name of the view stands for it in what is generated. -/
def Keeps (tree : FileTree) (top relative : String) (views : List ViewFile) (file : File) : Prop :=
  ∃ view, readView (joined top relative) file = .ok view ∧
    (∃ template, view.view.compile .standard (registryOf views).lookup = .ok template) ∧
    (generatedRegistry tree top views).lookup.find? view.name none = some view.view

section

variable {tree : FileTree} {top relative : String} {views : List ViewFile}

/-- What is generated is what was checked. -/
theorem generatedRegistry_eq (sound : tree.Sound)
    (expanded : directoryViews tree top relative = .ok views) :
    generatedRegistry tree top views = registryOf views := by
  obtain ⟨-, read, -⟩ := directoryViews_eq_ok_iff.1 expanded
  refine List.foldl_ext _ _ _ fun registry view member => ?_
  obtain ⟨file, among, made⟩ := exists_related read.flip member
  obtain ⟨-, text, path⟩ := readView_eq_ok_iff.1 made
  rw [← path, sound.included?_pathBelow top (List.mem_filter.1 among).1, text, Option.getD_some]

/-- A file is kept if the files that share its name have its text. -/
theorem keeps_of_same_text (sound : tree.Sound)
    (expanded : directoryViews tree top relative = .ok views) {file : File}
    (member : file ∈ tree.templates relative)
    (texts : ∀ other ∈ tree.templates relative, joinName file.place = joinName other.place →
      file.text? = other.text?) :
    Keeps tree top relative views file := by
  obtain ⟨-, read, checked⟩ := directoryViews_eq_ok_iff.1 expanded
  obtain ⟨view, among, made⟩ := exists_related read member
  obtain ⟨last, present, named, found⟩ := exists_last_of_mem among
  obtain ⟨other, placed, given⟩ := exists_related read.flip present
  have same : last.source = view.source := by
    rw [name_eq_joinName sound (List.mem_filter.1 placed).1 given,
      name_eq_joinName sound (List.mem_filter.1 member).1 made] at named
    have equal := texts other placed named.symm
    rw [(readView_eq_ok_iff.1 made).2.1, (readView_eq_ok_iff.1 given).2.1] at equal
    exact (Option.some.inj equal).symm
  have stands : (registryOf views).names.find? view.name = some view.view := by
    rw [found, ViewFile.view, ViewFile.view, named, same]
  have kept : (generatedRegistry tree top views).lookup.find? view.name none = some view.view := by
    rw [generatedRegistry_eq sound expanded]
    exact (Registry.find?_none _ _).trans stands
  refine ⟨view, made, ?_, kept⟩
  cases compiled : view.view.compile .standard (registryOf views).lookup with
  | ok template => exact ⟨template, rfl⟩
  | error failure =>
      have failed : (registryOf views).compile .standard view.name = some (.error failure) := by
        rw [Registry.compile, stands, Option.map_some, compiled]
      exact absurd failed (checked view among failure)

/-- Where no name has a colon or starts with a dot, every file is kept. -/
theorem keeps_of_plain (sound : tree.Sound) (expanded : directoryViews tree top relative = .ok views)
    (plain : ∀ file ∈ tree.templates relative, ∀ name ∈ file.place, IsPlainName name) :
    ∀ file ∈ tree.templates relative, Keeps tree top relative views file := by
  intro file member
  refine keeps_of_same_text sound expanded member fun other among same => ?_
  obtain ⟨present, template⟩ := List.mem_filter.1 member
  obtain ⟨there, html⟩ := List.mem_filter.1 among
  have placed := place_eq_of_joinName_eq template html (plain file member) (plain other among) same
  rw [sound.eq_of_place_eq present there placed]

/-- Every file of a directory is kept exactly if the files that share a name have one
text: the name stands for the last of them. -/
theorem keeps_iff (sound : tree.Sound) (expanded : directoryViews tree top relative = .ok views) :
    (∀ file ∈ tree.templates relative, Keeps tree top relative views file) ↔
      ∀ first ∈ tree.templates relative, ∀ second ∈ tree.templates relative,
        joinName first.place = joinName second.place → first.text? = second.text? := by
  constructor
  · intro kept first member second among same
    obtain ⟨view, read, -, found⟩ := kept first member
    obtain ⟨other, given, -, there⟩ := kept second among
    rw [name_eq_joinName sound (List.mem_filter.1 member).1 read, same,
      ← name_eq_joinName sound (List.mem_filter.1 among).1 given, there] at found
    have texts : other.source = view.source := congrArg View.source (Option.some.inj found)
    rw [(readView_eq_ok_iff.1 read).2.1, (readView_eq_ok_iff.1 given).2.1, texts]
  · intro texts file member
    exact keeps_of_same_text sound expanded member (texts file member)

end

/-- Cards for a blog and for the pages around it. -/
def blogTree : FileTree :=
  ((FileTree.empty.addFile ["pages", "blog", "card.html"] "inner".toUTF8).addFile
    ["pages", "blog", "posts", "show.html"] "post".toUTF8).addFile
    ["pages", "card.html"] "outer".toUTF8

def blogViews : List ViewFile :=
  [⟨"blog:card", "inner", "top/pages/blog/card.html"⟩,
    ⟨"blog:posts:show", "post", "top/pages/blog/posts/show.html"⟩,
    ⟨"card", "outer", "top/pages/card.html"⟩]

theorem blogTree_sound : blogTree.Sound :=
  ((FileTree.Sound.empty.addFile (by decide) _).addFile (by decide) _).addFile (by decide) _

theorem templates_blogTree : blogTree.templates "pages" =
    [⟨["blog", "card.html"], "inner".toUTF8⟩, ⟨["blog", "posts", "show.html"], "post".toUTF8⟩,
      ⟨["card.html"], "outer".toUTF8⟩] := by
  cbv

theorem compile_of_mem_blogViews (lookup : ViewLookup) :
    ∀ view ∈ blogViews, view.view.compile .standard lookup = .ok [.text view.source] := by
  intro view member
  simp only [blogViews, List.mem_cons, List.not_mem_nil, or_false] at member
  rcases member with rfl | rfl | rfl <;> cbv

theorem directoryViews_blogTree : directoryViews blogTree "top" "pages" = .ok blogViews := by
  rw [directoryViews_eq_ok_iff, templates_blogTree]
  refine ⟨by cbv, .cons ?_ (.cons ?_ (.cons ?_ .nil)), ?_⟩
  · cbv
  · cbv
  · cbv
  · intro view member failure
    obtain ⟨last, present, -, found⟩ := exists_last_of_mem member
    simp [Registry.compile, found, compile_of_mem_blogViews _ last present]

theorem keeps_iff_blogTree :
    blogTree.Sound ∧ directoryViews blogTree "top" "pages" = .ok blogViews ∧
      ∀ file ∈ blogTree.templates "pages", Keeps blogTree "top" "pages" blogViews file := by
  have names : ((blogTree.templates "pages").map fun file => joinName file.place) =
      ["blog:card", "blog:posts:show", "card"] := by
    rw [templates_blogTree]
    cbv
  have distinct := List.inj_on_of_nodup_map (by rw [names]; decide)
  refine ⟨blogTree_sound, directoryViews_blogTree, (keeps_iff blogTree_sound directoryViews_blogTree).2 ?_⟩
  intro first member second among same
  rw [distinct member among same]

/-- Two files that have the name of one view. -/
def collidingTree : FileTree :=
  (FileTree.empty.addFile ["pages", "a", "b.html"] "</p>".toUTF8).addFile
    ["pages", "a:b.html"] "text".toUTF8

def collidingViews : List ViewFile :=
  [⟨"a:b", "</p>", "top/pages/a/b.html"⟩, ⟨"a:b", "text", "top/pages/a:b.html"⟩]

theorem collidingTree_sound : collidingTree.Sound :=
  (FileTree.Sound.empty.addFile (by decide) _).addFile (by decide) _

theorem not_keeps_collidingTree :
    directoryViews collidingTree "top" "pages" = .ok collidingViews ∧
      (View.ofSource "a:b" "</p>" {}).compile .standard (registryOf collidingViews).lookup =
        .error ⟨.openTag "</p>", [.template "a:b" "</p>"]⟩ ∧
      (generatedRegistry collidingTree "top" collidingViews).lookup.find? "a:b" none =
        some (.ofSource "a:b" "text" {}) ∧
      ¬ ∀ file ∈ collidingTree.templates "pages", Keeps collidingTree "top" "pages" collidingViews file := by
  have embedded : collidingTree.templates "pages" =
      [⟨["a", "b.html"], "</p>".toUTF8⟩, ⟨["a:b.html"], "text".toUTF8⟩] := by
    cbv
  have read : readView (joined "top" "pages") ⟨["a", "b.html"], "</p>".toUTF8⟩ =
      .ok ⟨"a:b", "</p>", "top/pages/a/b.html"⟩ := by
    cbv
  have found : (registryOf collidingViews).names.find? "a:b" = some (.ofSource "a:b" "text" {}) := by
    cbv
  have compiles (lookup : ViewLookup) :
      (View.ofSource "a:b" "text" {}).compile .standard lookup = .ok [.text "text"] := by
    cbv
  have expanded : directoryViews collidingTree "top" "pages" = .ok collidingViews := by
    rw [directoryViews_eq_ok_iff, embedded]
    refine ⟨by cbv, .cons read (.cons (by cbv) .nil), ?_⟩
    intro view member failure
    have named : view.name = "a:b" := by
      simp only [collidingViews, List.mem_cons, List.not_mem_nil, or_false] at member
      rcases member with rfl | rfl <;> rfl
    simp [Registry.compile, named, found, compiles]
  have newer : (generatedRegistry collidingTree "top" collidingViews).lookup.find? "a:b" none =
      some (.ofSource "a:b" "text" {}) := by
    rw [generatedRegistry_eq collidingTree_sound expanded]
    exact (Registry.find?_none _ _).trans found
  refine ⟨expanded, by cbv, newer, fun kept => ?_⟩
  obtain ⟨view, given, -, stands⟩ := kept _ (embedded ▸ List.mem_cons_self)
  obtain rfl := Except.ok.inj (read.symm.trans given)
  have same := newer.symm.trans stands
  exact absurd (congrArg View.source (Option.some.inj same)) (by decide)

end Stencil.Embed
