/-! Dictionaries from texts to values, in the order of first insertion. -/

set_option autoImplicit false

namespace Stencil

/-- Entries in order; `insert` keeps their keys distinct. -/
structure Dict (α : Type) where
  entries : List (String × α)
  deriving Repr

namespace Dict

variable {α : Type}

def empty : Dict α :=
  ⟨[]⟩

instance : EmptyCollection (Dict α) := ⟨empty⟩

def keys (dict : Dict α) : List String :=
  dict.entries.map (·.1)

def size (dict : Dict α) : Nat :=
  dict.entries.length

def isEmpty (dict : Dict α) : Bool :=
  dict.entries.isEmpty

def find? (dict : Dict α) (key : String) : Option α :=
  dict.entries.lookup key

def contains (dict : Dict α) (key : String) : Bool :=
  (dict.find? key).isSome

/-- The entries with a value put under a key: in the place of that key if it
is there, and at the end if it is not. -/
def put (key : String) (value : α) : List (String × α) → List (String × α)
  | [] => [(key, value)]
  | entry :: rest =>
      if key == entry.1 then (key, value) :: rest else entry :: put key value rest

def insert (dict : Dict α) (key : String) (value : α) : Dict α :=
  ⟨put key value dict.entries⟩

/-- The dictionary without a key; the other entries keep their order. -/
def erase (dict : Dict α) (key : String) : Dict α :=
  ⟨dict.entries.filter (·.1 != key)⟩

def ofEntries (entries : List (String × α)) : Dict α :=
  entries.foldl (fun dict entry => dict.insert entry.1 entry.2) empty

@[simp] theorem find?_empty (key : String) : (empty : Dict α).find? key = none := rfl

theorem mem_of_find? {dict : Dict α} {key : String} {value : α} (found : dict.find? key = some value) :
    (key, value) ∈ dict.entries := by
  obtain ⟨before, after, same, -⟩ := List.lookup_eq_some_iff.1 found
  simp [same]

theorem lookup_put (key other : String) (value : α) (entries : List (String × α)) :
    (put key value entries).lookup other =
      if other == key then some value else entries.lookup other := by
  induction entries with
  | nil => cases same : other == key <;> simp [put, List.lookup_cons, same]
  | cons entry rest ih =>
      obtain ⟨first, old⟩ := entry
      by_cases here : key = first
      · subst here
        cases same : other == key <;> simp [put, List.lookup_cons, same]
      · have apart : (key == first) = false := by simpa using here
        cases same : other == first with
        | false => simp [put, List.lookup_cons, apart, same, ih]
        | true =>
            have equal : other = first := by simpa using same
            subst equal
            have differs : (other == key) = false := by
              simpa using fun h : other = key => here h.symm
            simp [put, apart, differs]

theorem eq_or_mem_of_mem_put {key : String} {value : α} {entry : String × α}
    {entries : List (String × α)} (member : entry ∈ put key value entries) :
    entry = (key, value) ∨ entry ∈ entries := by
  induction entries with
  | nil => exact Or.inl (List.mem_singleton.1 member)
  | cons first rest ih =>
      simp only [put] at member
      split at member
      · rcases List.mem_cons.1 member with here | later
        · exact Or.inl here
        · exact Or.inr (List.mem_cons_of_mem first later)
      · rcases List.mem_cons.1 member with here | later
        · exact Or.inr (List.mem_cons.2 (Or.inl here))
        · exact (ih later).imp_right (List.mem_cons_of_mem first)

theorem keys_put (key : String) (value : α) (entries : List (String × α)) :
    (put key value entries).map (·.1) =
      if key ∈ entries.map (·.1) then entries.map (·.1) else entries.map (·.1) ++ [key] := by
  induction entries with
  | nil => rfl
  | cons entry rest ih =>
      by_cases here : key = entry.1
      · simp [put, here]
      · simp only [put, beq_eq_false_iff_ne.2 here, Bool.false_eq_true, if_false, List.map_cons, ih,
          List.mem_cons, here, false_or]
        split <;> rfl

theorem put_of_not_mem {key : String} {entries : List (String × α)}
    (absent : key ∉ entries.map (·.1)) (value : α) :
    put key value entries = entries ++ [(key, value)] := by
  induction entries with
  | nil => rfl
  | cons entry rest ih =>
      obtain ⟨differs, later⟩ := List.ne_and_not_mem_of_not_mem_cons absent
      have apart : (key == entry.1) = false := by simpa using differs
      simp only [put, apart, Bool.false_eq_true, if_false, ih later, List.cons_append]

@[simp] theorem find?_insert (dict : Dict α) (key other : String) (value : α) :
    (dict.insert key value).find? other = if other == key then some value else dict.find? other :=
  lookup_put key other value dict.entries

end Dict

end Stencil
