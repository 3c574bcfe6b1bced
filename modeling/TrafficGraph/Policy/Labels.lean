/-!
# Labels

A label has a key and a value, and a set of labels has at most one label for
each key.  The labels keep the order in which their keys came up first.
-/

namespace TrafficGraph

/-- A set of labels: keys and values in order, with no key twice. -/
structure Labels where
  entries : List (String × String)
  nodup : (entries.map Prod.fst).Nodup
  deriving DecidableEq

namespace Labels

def empty : Labels := ⟨[], by simp⟩

/-- Store a value under a key: in place if the key is there, at the end if not. -/
def putEntry (key value : String) : List (String × String) → List (String × String)
  | [] => [(key, value)]
  | (k, v) :: rest => if k = key then (k, value) :: rest else (k, v) :: putEntry key value rest

theorem mem_keys_putEntry (key value x : String) (entries : List (String × String)) :
    x ∈ (putEntry key value entries).map Prod.fst ↔
      x = key ∨ x ∈ entries.map Prod.fst := by
  induction entries with
  | nil => simp [putEntry]
  | cons entry rest ih =>
    obtain ⟨k, v⟩ := entry
    by_cases hk : k = key
    · subst hk
      simp [putEntry]
    · simp only [putEntry, if_neg hk, List.map_cons, List.mem_cons, ih]
      constructor
      · rintro (h | h | h)
        · exact Or.inr (Or.inl h)
        · exact Or.inl h
        · exact Or.inr (Or.inr h)
      · rintro (h | h | h)
        · exact Or.inr (Or.inl h)
        · exact Or.inl h
        · exact Or.inr (Or.inr h)

theorem nodup_putEntry (key value : String) (entries : List (String × String))
    (h : (entries.map Prod.fst).Nodup) : ((putEntry key value entries).map Prod.fst).Nodup := by
  induction entries with
  | nil => simp [putEntry]
  | cons entry rest ih =>
    obtain ⟨k, v⟩ := entry
    rw [List.map_cons, List.nodup_cons] at h
    by_cases hk : k = key
    · subst hk
      simpa [putEntry] using h
    · simp only [putEntry, if_neg hk, List.map_cons, List.nodup_cons]
      refine ⟨?_, ih h.2⟩
      rw [mem_keys_putEntry]
      rintro (hkey | hrest)
      · exact hk hkey
      · exact h.1 hrest

def put (key value : String) (labels : Labels) : Labels :=
  ⟨putEntry key value labels.entries, nodup_putEntry key value labels.entries labels.nodup⟩

def ofList (entries : List (String × String)) : Labels :=
  entries.foldl (fun labels entry => labels.put entry.1 entry.2) empty

def findEntry (key : String) : List (String × String) → Option String
  | [] => none
  | (k, v) :: rest => if k = key then some v else findEntry key rest

def get? (labels : Labels) (key : String) : Option String := findEntry key labels.entries

def isEmpty (labels : Labels) : Bool := labels.entries.isEmpty

@[simp] theorem get?_empty (key : String) : empty.get? key = none := rfl

theorem findEntry_putEntry_self (key value : String) (entries : List (String × String)) :
    findEntry key (putEntry key value entries) = some value := by
  induction entries with
  | nil => simp [putEntry, findEntry]
  | cons entry rest ih =>
    obtain ⟨k, v⟩ := entry
    by_cases hk : k = key <;> simp [putEntry, findEntry, hk, ih]

theorem findEntry_putEntry_of_ne {key other : String} (value : String) (h : other ≠ key)
    (entries : List (String × String)) :
    findEntry other (putEntry key value entries) = findEntry other entries := by
  induction entries with
  | nil => simp [putEntry, findEntry, h.symm]
  | cons entry rest ih =>
    obtain ⟨k, v⟩ := entry
    by_cases hk : k = key
    · subst hk
      simp [putEntry, findEntry, h.symm]
    · simp only [putEntry, if_neg hk, findEntry, ih]

/-- Storing under a key changes the value of that key and of no other. -/
theorem get?_put (labels : Labels) (key value other : String) :
    (labels.put key value).get? other = if other = key then some value else labels.get? other := by
  by_cases h : other = key
  · subst h
    simp [get?, put, findEntry_putEntry_self]
  · simp [get?, put, h, findEntry_putEntry_of_ne value h]

end Labels
end TrafficGraph
