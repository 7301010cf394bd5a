/-!
# Entries

Keyed values in the order in which their keys first came: the members of an object, the fields of a
shape, the files of a directory. Setting a key that is present keeps its place and replaces its value.
-/

namespace SampleTypes

/-- Keyed values in order. -/
abbrev Entries (α : Type) := List (String × α)

namespace Entries

variable {α : Type}

def keys (entries : Entries α) : List String :=
  entries.map (·.1)

/-- No key comes twice. -/
def Distinct (entries : Entries α) : Prop :=
  entries.keys.Nodup

/-- The value of the first entry with the key. -/
def find? (key : String) : Entries α → Option α
  | [] => none
  | (k, a) :: rest => if k = key then some a else find? key rest

/-- Gives the key a value: in its place if it is present, else at the end. -/
def set (key : String) (value : α) : Entries α → Entries α
  | [] => [(key, value)]
  | (k, a) :: rest => if k = key then (k, value) :: rest else (k, a) :: set key value rest

/-- Entries from a list in which keys may repeat: first place, last value. -/
def ofList (list : List (String × α)) : Entries α :=
  list.foldl (fun entries (key, value) => set key value entries) []

def erase (key : String) (entries : Entries α) : Entries α :=
  entries.filter fun entry => entry.1 != key

@[simp] theorem find?_nil (key : String) : find? key ([] : Entries α) = none := rfl

@[simp] theorem set_nil (key : String) (value : α) : set key value [] = [(key, value)] := rfl

theorem find?_set_self (key : String) (value : α) (entries : Entries α) :
    find? key (set key value entries) = some value := by
  induction entries with
  | nil => simp [set, find?]
  | cons entry rest ih =>
    obtain ⟨k, a⟩ := entry
    by_cases hk : k = key <;> simp [set, find?, hk, ih]

theorem find?_set_of_ne {key other : String} (h : key ≠ other) (value : α) (entries : Entries α) :
    find? other (set key value entries) = find? other entries := by
  induction entries with
  | nil => simp [set, find?, h]
  | cons entry rest ih =>
    obtain ⟨k, a⟩ := entry
    by_cases hk : k = key
    · subst hk; simp [set, find?, h]
    · by_cases ho : k = other
      · subst ho; simp [set, find?, hk]
      · simp [set, find?, hk, ho, ih]

/-- Setting a key that is absent appends it. -/
theorem set_of_not_mem {key : String} {entries : Entries α} (h : key ∉ entries.keys) (value : α) :
    set key value entries = entries ++ [(key, value)] := by
  induction entries with
  | nil => rfl
  | cons entry rest ih =>
    obtain ⟨k, a⟩ := entry
    simp only [keys, List.map_cons, List.mem_cons, not_or] at h
    simp [set, Ne.symm h.1, ih h.2]

/-- Setting a key that is present keeps the keys and their order. -/
theorem keys_set_of_mem {key : String} {entries : Entries α} (h : key ∈ entries.keys) (value : α) :
    keys (set key value entries) = entries.keys := by
  induction entries with
  | nil => simp [keys] at h
  | cons entry rest ih =>
    obtain ⟨k, a⟩ := entry
    by_cases hk : k = key
    · simp [set, keys, hk]
    · simp only [keys, List.map_cons, List.mem_cons, Ne.symm hk, false_or] at h
      simpa [set, keys, hk] using ih h

theorem Distinct.set {entries : Entries α} (h : entries.Distinct) (key : String) (value : α) :
    (Entries.set key value entries).Distinct := by
  by_cases hk : key ∈ entries.keys
  · simpa [Distinct, keys_set_of_mem hk] using h
  · simp only [Distinct, set_of_not_mem hk, keys, List.map_append, List.map_cons, List.map_nil]
    refine List.nodup_append.2 ⟨h, by simp, ?_⟩
    intro a ha b hb
    simp only [List.mem_singleton] at hb
    subst hb
    exact fun hab => hk (hab ▸ ha)

end Entries

end SampleTypes
