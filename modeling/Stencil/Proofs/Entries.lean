import Mathlib.Data.List.Nodup
import Stencil.Dict

/-! Dictionaries made of entries: keys are distinct, and entries with distinct keys all
stay.
-/

set_option autoImplicit false

namespace Stencil.Dict

variable {α : Type}

theorem nodup_insert {dict : Dict α} (distinct : dict.keys.Nodup) (key : String) (value : α) :
    (dict.insert key value).keys.Nodup := by
  simp only [keys, insert, keys_put]
  split
  · exact distinct
  · rename_i absent
    refine distinct.append (List.nodup_singleton key) ?_
    exact List.disjoint_singleton.2 absent

theorem find?_eq_none_iff {dict : Dict α} {key : String} : dict.find? key = none ↔ key ∉ dict.keys := by
  simp only [find?, keys, List.lookup_eq_none_iff, List.mem_map, not_exists, not_and]
  exact ⟨fun apart entry member same => by simpa [same] using apart entry member,
    fun apart entry member => by simpa using Ne.symm (apart entry member)⟩

theorem keys_insert (dict : Dict α) (key : String) (value : α) :
    (dict.insert key value).keys = if key ∈ dict.keys then dict.keys else dict.keys ++ [key] :=
  keys_put key value dict.entries

/-- The keys after insertions under some names. New ones come at the end, in the order in which
they first occur. -/
def keysWith (dict : Dict α) (names : List String) : List String :=
  dict.keys ++ (names.filter (· ∉ dict.keys)).eraseDups

@[simp] theorem keysWith_nil (dict : Dict α) : dict.keysWith [] = dict.keys := by
  simp [keysWith]

theorem mem_keysWith_iff {dict : Dict α} {names : List String} {name : String} :
    name ∈ dict.keysWith names ↔ name ∈ dict.keys ∨ name ∈ names := by
  by_cases known : name ∈ dict.keys <;> simp [keysWith, known]

theorem keysWith_of_known {dict : Dict α} {names : List String}
    (known : ∀ name ∈ names, name ∈ dict.keys) : dict.keysWith names = dict.keys := by
  have none : names.filter (· ∉ dict.keys) = [] := by simpa using known
  rw [keysWith, none, List.eraseDups_nil, List.append_nil]

theorem keysWith_insert (dict : Dict α) (key : String) (value : α) (names : List String) :
    (dict.insert key value).keysWith names = dict.keysWith (key :: names) := by
  simp only [keysWith, keys_insert]
  by_cases known : key ∈ dict.keys
  · simp [known]
  · have others : names.filter (· ∉ dict.keys ++ [key]) =
        (names.filter (· ∉ dict.keys)).filter (!· == key) := by
      rw [List.filter_filter]
      refine List.filter_congr fun name _ => ?_
      rw [Bool.eq_iff_iff]
      simp [and_comm]
    rw [if_neg known, others, List.filter_cons_of_pos (by simpa using known), List.eraseDups_cons,
      List.append_assoc, List.singleton_append]

theorem keys_foldl_insert (dict : Dict α) (entries : List (String × α)) :
    (entries.foldl (fun dict entry => dict.insert entry.1 entry.2) dict).keys =
      dict.keysWith (entries.map (·.1)) := by
  induction entries generalizing dict with
  | nil => rw [List.foldl_nil, List.map_nil, keysWith_nil]
  | cons entry rest ih => rw [List.foldl_cons, ih, keysWith_insert, List.map_cons]

/-- Distinct keys in their order, and what stands under them, make a dictionary. -/
theorem eq_of_find? {first second : Dict α} (keys : first.keys = second.keys)
    (distinct : second.keys.Nodup) (same : ∀ key, first.find? key = second.find? key) :
    first = second := by
  obtain ⟨left⟩ := first
  obtain ⟨right⟩ := second
  simp only [Dict.keys, Dict.find?, mk.injEq] at keys distinct same ⊢
  induction right generalizing left with
  | nil => exact List.map_eq_nil_iff.1 keys
  | cons entry rest ih =>
      cases left with
      | nil => cases keys
      | cons other others =>
          obtain ⟨key, value⟩ := entry
          obtain ⟨own, old⟩ := other
          obtain ⟨rfl, tails⟩ := List.cons.inj keys
          obtain ⟨absent, distinct⟩ := List.nodup_cons.1 distinct
          have here : old = value := by simpa [List.lookup_cons] using same own
          rw [here, ih others distinct tails]
          -- Under the first key nothing stands further on, in either list.
          intro name
          by_cases first : name = own
          · subst first
            have missing (entries : List (String × α)) (apart : name ∉ (Dict.mk entries).keys) :
                entries.lookup name = none := find?_eq_none_iff.2 apart
            rw [missing others (by rwa [Dict.keys, tails]), missing rest absent]
          · have apart : (name == own) = false := by simpa using first
            simpa [List.lookup_cons, apart] using same name

theorem erase_insert (dict : Dict α) (key : String) (value : α) :
    (dict.insert key value).erase key = dict.erase key := by
  obtain ⟨entries⟩ := dict
  simp only [erase, insert, mk.injEq]
  induction entries with
  | nil => simp [put]
  | cons entry rest ih =>
      by_cases here : key = entry.1
      · simp [put, here]
      · simp only [put, beq_eq_false_iff_ne.2 here, Bool.false_eq_true, if_false, List.filter_cons, ih]

/-- Of several values under one key the last one stays. -/
theorem find?_foldl_insert (dict : Dict α) (entries : List (String × α)) (key : String) :
    (entries.foldl (fun dict entry => dict.insert entry.1 entry.2) dict).find? key =
      (entries.reverse.lookup key).or (dict.find? key) := by
  induction entries generalizing dict with
  | nil => rfl
  | cons entry rest ih =>
      obtain ⟨first, value⟩ := entry
      rw [List.foldl_cons, ih, find?_insert, List.reverse_cons, List.lookup_append, Option.or_assoc]
      congr 1
      cases same : key == first <;> simp [List.lookup_cons, same]

/-- What insertions preserve holds of every dictionary that is made of entries. -/
theorem ofEntries_induction {motive : Dict α → Prop} {entries : List (String × α)}
    (none : motive empty)
    (step : ∀ dict, motive dict → ∀ entry ∈ entries, motive (dict.insert entry.1 entry.2)) :
    motive (ofEntries entries) :=
  List.foldlRecOn entries _ none step

theorem nodup_ofEntries (entries : List (String × α)) : (ofEntries entries).keys.Nodup :=
  ofEntries_induction (motive := fun dict => dict.keys.Nodup) List.nodup_nil
    fun _ distinct entry _ => nodup_insert distinct entry.1 entry.2

theorem mem_of_mem_ofEntries (entries : List (String × α)) :
    ∀ entry ∈ (ofEntries entries).entries, entry ∈ entries := by
  refine ofEntries_induction (motive := fun dict => ∀ entry ∈ dict.entries, entry ∈ entries) ?_ ?_
  · exact fun _ member => absurd member List.not_mem_nil
  · intro dict among entry member other there
    rcases eq_or_mem_of_mem_put there with rfl | before
    · exact member
    · exact among other before

theorem foldl_insert_of_nodup {before entries : List (String × α)}
    (distinct : ((before ++ entries).map (·.1)).Nodup) :
    entries.foldl (fun dict entry => dict.insert entry.1 entry.2) (⟨before⟩ : Dict α) =
      ⟨before ++ entries⟩ := by
  induction entries generalizing before with
  | nil => rw [List.foldl_nil, List.append_nil]
  | cons entry rest ih =>
      have absent : entry.1 ∉ before.map (·.1) := by
        intro member
        rw [List.map_append, List.map_cons] at distinct
        exact List.disjoint_of_nodup_append distinct member List.mem_cons_self
      rw [List.append_cons] at distinct
      rw [List.foldl_cons, insert, put_of_not_mem absent, ih distinct, ← List.append_cons]

theorem ofEntries_of_nodup {dict : Dict α} (distinct : dict.keys.Nodup) :
    ofEntries dict.entries = dict :=
  foldl_insert_of_nodup distinct

/-- A dictionary into which items with distinct keys are put one by one. -/
theorem foldl_insert_map {β : Type} {items : List β} {key : β → String} (value : β → α)
    (distinct : (items.map key).Nodup) :
    items.foldl (fun dict item => dict.insert (key item) (value item)) empty =
      ⟨items.map fun item => (key item, value item)⟩ := by
  have kept : (Dict.mk (items.map fun item => (key item, value item))).keys.Nodup := by
    rwa [keys, List.map_map]
  rw [← ofEntries_of_nodup kept, ofEntries, List.foldl_map]

/-- The dictionary with every value replaced. -/
def map {β : Type} (f : α → β) (dict : Dict α) : Dict β :=
  ⟨dict.entries.map fun entry => (entry.1, f entry.2)⟩

theorem keys_map {β : Type} (f : α → β) (dict : Dict α) : (dict.map f).keys = dict.keys := by
  simp [keys, map, Function.comp_def]

theorem find?_map {β : Type} (f : α → β) (dict : Dict α) (key : String) :
    (dict.map f).find? key = (dict.find? key).map f := by
  obtain ⟨entries⟩ := dict
  simp only [map, find?]
  induction entries with
  | nil => rfl
  | cons entry rest ih =>
      obtain ⟨first, value⟩ := entry
      cases same : key == first <;> simp [List.lookup_cons, same, ih]

theorem map_insert {β : Type} (f : α → β) (dict : Dict α) (key : String) (value : α) :
    (dict.insert key value).map f = (dict.map f).insert key (f value) := by
  obtain ⟨entries⟩ := dict
  simp only [map, insert, mk.injEq]
  induction entries with
  | nil => rfl
  | cons entry rest ih =>
      simp only [put, List.map_cons]
      split
      · rfl
      · rw [List.map_cons, ih]

theorem foldl_insert_value {β : Type} (f : α → β) (dict : Dict α) (entries : List (String × α)) :
    entries.foldl (fun dict entry => dict.insert entry.1 (f entry.2)) (dict.map f) =
      (entries.foldl (fun dict entry => dict.insert entry.1 entry.2) dict).map f := by
  induction entries generalizing dict with
  | nil => rfl
  | cons entry rest ih => rw [List.foldl_cons, ← map_insert, ih, List.foldl_cons]

/-- Entries that went through a dictionary before make the same one as they do at once. -/
theorem foldl_insert_ofEntries {β : Type} (f : α → β) (entries : List (String × α)) :
    (ofEntries entries).entries.foldl (fun dict entry => dict.insert entry.1 (f entry.2)) empty =
      entries.foldl (fun dict entry => dict.insert entry.1 (f entry.2)) empty := by
  have again : ofEntries (ofEntries entries).entries = ofEntries entries :=
    ofEntries_of_nodup (nodup_ofEntries entries)
  have once (entries : List (String × α)) :
      entries.foldl (fun dict entry => dict.insert entry.1 (f entry.2)) empty =
        (ofEntries entries).map f :=
    foldl_insert_value f empty entries
  rw [once, once, again]

end Stencil.Dict
