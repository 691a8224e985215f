import Stencil.Proofs.Directory.Path
import Stencil.Proofs.Registry

/-! The full names that a name may stand for in a namespace.

The parts of the namespace between its colons stand before the name: all of them, then all
but the last, down to none. The first of these full names that a call registers decides,
and of the calls with it the last.
-/

set_option autoImplicit false

namespace Stencil

/-- The texts between the colons of a name. Some may be empty. -/
def nameParts (name : String) : List String :=
  (name.toList.splitOn ':').map String.ofList

theorem nameParts_ne_nil (name : String) : nameParts name ≠ [] := by
  simp [nameParts]

theorem not_mem_of_mem_splitOn {α : Type} [BEq α] [LawfulBEq α] {mark : α} {text part : List α}
    (member : part ∈ text.splitOn mark) : mark ∉ part := by
  induction text generalizing part with
  | nil =>
      obtain rfl : part = [] := by simpa using member
      exact List.not_mem_nil
  | cons c rest ih =>
      rw [List.splitOn_cons_eq_if_modifyHead] at member
      split at member
      · rcases List.mem_cons.1 member with rfl | later
        · exact List.not_mem_nil
        · exact ih later
      · rename_i other
        obtain ⟨first, more, same⟩ := List.exists_cons_of_ne_nil (List.splitOn_ne_nil mark rest)
        rw [same, List.modifyHead_cons] at member
        rcases List.mem_cons.1 member with rfl | later
        · have free : mark ∉ first := ih (same ▸ List.mem_cons_self)
          intro among
          rcases List.mem_cons.1 among with rfl | within
          · exact other (beq_self_eq_true mark)
          · exact free within
        · exact ih (same ▸ List.mem_cons_of_mem _ later)

theorem colonFree_of_mem_nameParts {name part : String} (member : part ∈ nameParts name) :
    ':' ∉ part.toList := by
  obtain ⟨text, among, rfl⟩ := List.mem_map.1 member
  rw [String.toList_ofList]
  exact not_mem_of_mem_splitOn among

theorem intercalate_nameParts (name : String) : ":".intercalate (nameParts name) = name := by
  rw [← String.toList_inj, String.toList_intercalate, nameParts, List.map_map]
  simp [Function.comp_def]

namespace Registry

/-- The name under the first parts of its namespace, from all of them to none. An empty
namespace is none. -/
def fullNames (name : String) : Option String → List String
  | none => [name]
  | some home =>
      if home = "" then [name]
      else (nameParts home).inits.reverse.map fun outer => ":".intercalate (outer ++ [name])

theorem candidates_inside {home outer : String} (name : String) (inside : enclosing? home = some outer) :
    candidates name home = (home ++ ":" ++ name) :: candidates name outer := by
  rw [candidates]
  split
  · rename_i found
    cases inside.symm.trans found
    rfl
  · rename_i found
    cases inside.symm.trans found

theorem candidates_top {home : String} (name : String) (top : enclosing? home = none) :
    candidates name home = [home ++ ":" ++ name, name] := by
  rw [candidates]
  split
  · rename_i found
    cases top.symm.trans found
  · rfl

/-- Cutting a namespace at its last colon takes away its last part. -/
theorem candidates_intercalate (name : String) {parts : List String} (some : parts ≠ [])
    (free : ∀ part ∈ parts, ':' ∉ part.toList) :
    candidates name (":".intercalate parts) =
      parts.inits.reverse.map fun outer => ":".intercalate (outer ++ [name]) := by
  induction parts using List.reverseRecOn with
  | nil => exact absurd rfl some
  | append_singleton outer last ih =>
      have around := enclosing?_intercalate outer (free last (by simp))
      have first : ":".intercalate (outer ++ [last]) ++ ":" ++ name =
          ":".intercalate (outer ++ [last] ++ [name]) :=
        (intercalate_concat (by simp) name).symm
      split at around
      · rename_i top
        subst top
        rw [candidates_top name around, first]
        simp
      · rename_i inside
        rw [candidates_inside name around, first,
          ih inside fun part member => free part (List.mem_append_left _ member)]
        simp [List.inits_append]

theorem candidatesFrom_eq (name : String) (home : Option String) :
    candidatesFrom name home = fullNames name home := by
  cases home with
  | none => rfl
  | some home =>
      simp only [candidatesFrom, fullNames, String.isEmpty_iff]
      split
      · rfl
      · have cut := candidates_intercalate name (nameParts_ne_nil home)
          fun part member => colonFree_of_mem_nameParts member
        rwa [intercalate_nameParts] at cut

theorem length_under (home name : String) :
    (home ++ ":" ++ name).toList.length = home.toList.length + 1 + name.toList.length := by
  simp only [String.toList_append, List.length_append]
  rfl

/-- Farther out the names are shorter. -/
theorem length_of_mem_candidates {name home full : String} (member : full ∈ candidates name home) :
    full.toList.length ≤ home.toList.length + 1 + name.toList.length := by
  induction home using candidates.induct with
  | case1 home ih =>
      cases found : enclosing? home with
      | some outer =>
          rw [candidates_inside name found] at member
          rcases List.mem_cons.1 member with rfl | later
          · exact (length_under home name).le
          · have := ih outer found later
            have := length_of_enclosing? found
            omega
      | none =>
          rw [candidates_top name found] at member
          rcases List.mem_cons.1 member with rfl | last
          · exact (length_under home name).le
          · rw [List.mem_singleton.1 last]
            omega

theorem nodup_candidates (name home : String) : (candidates name home).Nodup := by
  induction home using candidates.induct with
  | case1 home ih =>
      cases found : enclosing? home with
      | some outer =>
          rw [candidates_inside name found, List.nodup_cons]
          refine ⟨fun later => ?_, ih outer found⟩
          have whole := length_under home name
          have := length_of_mem_candidates later
          have := length_of_enclosing? found
          omega
      | none =>
          rw [candidates_top name found, List.nodup_cons]
          refine ⟨fun last => ?_, List.nodup_singleton name⟩
          have whole := length_under home name
          rw [List.mem_singleton.1 last] at whole
          omega

theorem nodup_fullNames (name : String) (home : Option String) : (fullNames name home).Nodup := by
  rw [← candidatesFrom_eq]
  cases home with
  | none => exact List.nodup_singleton name
  | some home =>
      rw [candidatesFrom]
      split
      · exact List.nodup_singleton name
      · exact nodup_candidates name home

/-- The view is what the last call with a full name registers. -/
def Last (calls : List Registration) (full : String) (view : View) : Prop :=
  ∃ before call after, calls = before ++ call :: after ∧ call.name = full ∧
    (∀ later ∈ after, later.name ≠ full) ∧ call.view = view

section

variable {calls : List Registration} {full : String}

theorem find?_names_eq_some_iff {view : View} :
    (ofCalls calls).names.find? full = some view ↔ Last calls full view := by
  rw [find?_names_ofCalls, Option.map_eq_some_iff]
  constructor
  · rintro ⟨call, found, same⟩
    obtain ⟨named, before, after, split, others⟩ := find?_reverse_eq_some_iff.1 found
    exact ⟨before, call, after, split, by simpa using named, by simpa using others, same⟩
  · rintro ⟨before, call, after, split, named, others, same⟩
    refine ⟨call, find?_reverse_eq_some_iff.2 ⟨by simpa using named, before, after, split, ?_⟩, same⟩
    simpa using others

theorem find?_names_eq_none_iff :
    (ofCalls calls).names.find? full = none ↔ ∀ call ∈ calls, call.name ≠ full := by
  simp [find?_names_ofCalls]

/-- A call with another name does not show, wherever it is made. -/
theorem find?_names_of_ne {before after : List Registration} {call : Registration}
    (other : call.name ≠ full) : (ofCalls (before ++ call :: after)).names.find? full =
      (ofCalls (before ++ after)).names.find? full := by
  simp [find?_names_ofCalls, List.find?_append, other]

theorem find?_names_concat {call : Registration} : (ofCalls (calls ++ [call])).names.find? full =
    if full = call.name then some call.view else (ofCalls calls).names.find? full := by
  simp only [ofCalls_concat, add, Dict.find?_insert, beq_iff_eq]
  rfl

end

theorem findSome?_congr {α β : Type} {first second : α → Option β} {items : List α}
    (alike : ∀ item ∈ items, first item = second item) :
    items.findSome? first = items.findSome? second := by
  rw [← List.head?_filterMap, ← List.head?_filterMap, List.filterMap_congr alike]

theorem find?_eq_findSome? (registry : Registry) (name : String) (home : Option String) :
    registry.lookup.find? name home = (fullNames name home).findSome? registry.names.find? := by
  rw [← candidatesFrom_eq]
  rfl

/-- A name stands for the view of the last call with the first full name that has a call,
and for none if no full name has one. A call with another name never changes that, and a
new call with one of the full names does just if none before that one has a call. -/
theorem find?_innermost (calls : List Registration) (name : String) (home : Option String) :
    (∀ view, (ofCalls calls).lookup.find? name home = some view ↔
      ∃ inner full outer, fullNames name home = inner ++ full :: outer ∧
        (∀ other ∈ inner, ∀ call ∈ calls, call.name ≠ other) ∧ Last calls full view) ∧
    ((ofCalls calls).lookup.find? name home = none ↔
      ∀ full ∈ fullNames name home, ∀ call ∈ calls, call.name ≠ full) ∧
    (∀ before call after, calls = before ++ call :: after → call.name ∉ fullNames name home →
      (ofCalls calls).lookup.find? name home = (ofCalls (before ++ after)).lookup.find? name home) ∧
    ∀ call inner outer, fullNames name home = inner ++ call.name :: outer →
      (ofCalls (calls ++ [call])).lookup.find? name home =
        if ∃ earlier ∈ calls, earlier.name ∈ inner then (ofCalls calls).lookup.find? name home
        else some call.view := by
  simp only [find?_eq_findSome?]
  refine ⟨fun view => ?_, ?_, ?_, ?_⟩
  · simp only [List.findSome?_eq_some_iff, find?_names_eq_some_iff, find?_names_eq_none_iff]
    exact exists_congr fun inner => exists_congr fun full => exists_congr fun outer =>
      and_congr_right fun _ => and_comm
  · simp only [List.findSome?_eq_none_iff, find?_names_eq_none_iff]
  · rintro before call after rfl absent
    refine findSome?_congr fun full member => find?_names_of_ne ?_
    rintro rfl
    exact absent member
  · intro call inner outer same
    have apart : call.name ∉ inner := by
      have distinct := same ▸ nodup_fullNames name home
      exact fun member => (List.nodup_append.1 distinct).2.2 _ member _ List.mem_cons_self rfl
    have kept : inner.findSome? (ofCalls (calls ++ [call])).names.find? =
        inner.findSome? (ofCalls calls).names.find? := by
      refine findSome?_congr fun full member => ?_
      rw [find?_names_concat, if_neg fun equal : full = call.name => apart (equal ▸ member)]
    rw [same, List.findSome?_append, List.findSome?_append, kept, List.findSome?_cons,
      find?_names_concat, if_pos rfl]
    cases found : inner.findSome? (ofCalls calls).names.find? with
    | some view =>
        obtain ⟨first, full, rest, split, taken, -⟩ := List.findSome?_eq_some_iff.1 found
        obtain ⟨before, earlier, after, among, named, -⟩ := find?_names_eq_some_iff.1 taken
        rw [if_pos ⟨earlier, by simp [among], by simp [named, split]⟩]
        rfl
    | none =>
        have missing := List.findSome?_eq_none_iff.1 found
        rw [if_neg]
        · rfl
        · rintro ⟨earlier, member, among⟩
          exact find?_names_eq_none_iff.1 (missing _ among) earlier member rfl

/-- Parts of a namespace may be empty, and each of them counts. -/
example : fullNames "card" (some "app::home") =
    ["app::home:card", "app::card", "app:card", "card"] := by
  cbv

end Registry

end Stencil
