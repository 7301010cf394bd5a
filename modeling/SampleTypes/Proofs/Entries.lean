import Mathlib.Data.List.Induction
import Mathlib.Data.List.Perm.Subperm
import SampleTypes.Entries

/-!
# Looking entries up

What a look-up says about membership, and what is left of a list whose keys may repeat once it has
been made into entries. With distinct keys, looking a key up and finding an entry are the same thing.
-/

namespace SampleTypes

namespace Entries

variable {α : Type} {key : String} {value : α} {entries : Entries α}

instance (entries : Entries α) : Decidable entries.Distinct :=
  inferInstanceAs (Decidable entries.keys.Nodup)

theorem mem_keys : key ∈ entries.keys ↔ ∃ value, (key, value) ∈ entries := by
  simp [keys]

theorem mem_keys_of_mem (h : (key, value) ∈ entries) : key ∈ entries.keys :=
  mem_keys.mpr ⟨value, h⟩

theorem distinct_nil : Distinct ([] : Entries α) := List.nodup_nil

theorem distinct_cons {entry : String × α} {rest : Entries α} :
    Distinct (entry :: rest) ↔ entry.1 ∉ rest.keys ∧ rest.Distinct :=
  List.nodup_cons

/-! ## Look-ups and membership -/

/-- What is found under a key stands in the entries with it. -/
theorem mem_of_find? (h : find? key entries = some value) : (key, value) ∈ entries := by
  induction entries with
  | nil => simp at h
  | cons entry rest ih =>
      obtain ⟨k, a⟩ := entry
      rw [find?] at h
      split at h
      · next hk =>
          cases h
          rw [hk]
          exact List.mem_cons_self
      · exact List.mem_cons_of_mem _ (ih h)

/-- With distinct keys an entry is the one that a look-up finds. -/
theorem find?_eq_some (hd : entries.Distinct) :
    find? key entries = some value ↔ (key, value) ∈ entries := by
  refine ⟨mem_of_find?, fun h => ?_⟩
  induction entries with
  | nil => simp at h
  | cons entry rest ih =>
      obtain ⟨k, a⟩ := entry
      obtain ⟨hk, hd⟩ := distinct_cons.mp hd
      rcases List.mem_cons.mp h with h | h
      · cases h
        simp [find?]
      · have hne : k ≠ key := fun heq => hk (heq ▸ mem_keys_of_mem h)
        rw [find?, if_neg hne]
        exact ih hd h

/-- With distinct keys, one key has one value. -/
theorem eq_of_mem {other : α} (hd : entries.Distinct) (h : (key, value) ∈ entries)
    (h' : (key, other) ∈ entries) : value = other := by
  rw [← find?_eq_some hd] at h h'
  exact Option.some.inj (h.symm.trans h')

/-- Two distinct lists of keys of one length, the first among the second: the second is among the
first as well. -/
theorem keys_subset_of_length {β : Type} {others : Entries β} (hd : entries.Distinct)
    (hlength : entries.length = others.length) (hsub : entries.keys ⊆ others.keys) :
    others.keys ⊆ entries.keys := by
  have hsubperm : entries.keys.Subperm others.keys := hd.subperm hsub
  have hle : others.keys.length ≤ entries.keys.length := by
    simp only [keys, List.length_map]
    omega
  exact (hsubperm.perm_of_length_le hle).symm.subset

/-! ## Entries from a list -/

/-- Setting a value brings one new entry at most. -/
theorem mem_set {entry : String × α} (h : entry ∈ set key value entries) :
    entry = (key, value) ∨ entry ∈ entries := by
  induction entries with
  | nil => simpa using h
  | cons first rest ih =>
      obtain ⟨k, a⟩ := first
      rw [set] at h
      split at h
      · next hk =>
          subst hk
          rcases List.mem_cons.mp h with h | h
          · exact .inl h
          · exact .inr (List.mem_cons_of_mem _ h)
      · rcases List.mem_cons.mp h with h | h
        · exact .inr (h ▸ List.mem_cons_self)
        · exact (ih h).imp_right (List.mem_cons_of_mem _)

/-- A fact of all entries of a list that setting the list's values one by one keeps. -/
private theorem foldl_set_induction {motive : Entries α → Prop} (list : List (String × α))
    (step : ∀ entries, ∀ entry ∈ list, motive entries → motive (set entry.1 entry.2 entries))
    (start : motive entries) :
    motive (list.foldl (fun entries (key, value) => set key value entries) entries) := by
  induction list generalizing entries with
  | nil => exact start
  | cons entry rest ih =>
      rw [List.foldl_cons]
      apply ih fun entries other hother => step entries other (List.mem_cons_of_mem _ hother)
      exact step entries entry List.mem_cons_self start

theorem distinct_ofList (list : List (String × α)) : (ofList list).Distinct :=
  foldl_set_induction list (fun _ entry _ h => h.set entry.1 entry.2) distinct_nil

theorem mem_of_mem_ofList {list : List (String × α)} {entry : String × α}
    (h : entry ∈ ofList list) : entry ∈ list := by
  have hall : ∀ entry ∈ ofList list, entry ∈ list := by
    apply foldl_set_induction (motive := fun entries => ∀ entry ∈ entries, entry ∈ list)
    · intro entries entry hentry hsub other hother
      rcases mem_set hother with rfl | hother
      · exact hentry
      · exact hsub other hother
    · intro entry hentry
      exact absurd hentry List.not_mem_nil
  exact hall entry h

theorem set_ne_nil (key : String) (value : α) (entries : Entries α) :
    set key value entries ≠ [] := by
  cases entries with
  | nil => exact List.cons_ne_nil _ _
  | cons entry rest =>
      rw [set]
      split <;> exact List.cons_ne_nil _ _

theorem ofList_ne_nil {list : List (String × α)} (h : list ≠ []) : ofList list ≠ [] := by
  cases list with
  | nil => exact absurd rfl h
  | cons entry rest =>
      rw [ofList, List.foldl_cons]
      apply foldl_set_induction (motive := fun entries => entries ≠ [])
      · intro entries entry _ _
        exact set_ne_nil entry.1 entry.2 entries
      · exact set_ne_nil entry.1 entry.2 []

/-- As long as keys are new, setting their values appends them. -/
private theorem foldl_set_of_distinct (list : List (String × α)) :
    ∀ entries : Entries α, Distinct (entries ++ list) →
      list.foldl (fun entries (key, value) => set key value entries) entries = entries ++ list := by
  induction list with
  | nil => simp
  | cons entry rest ih =>
      intro entries hd
      obtain ⟨key, value⟩ := entry
      have hnot : key ∉ entries.keys := by
        intro hmem
        rw [Distinct, keys, List.map_append, List.nodup_append] at hd
        exact hd.2.2 key hmem key List.mem_cons_self rfl
      have hset : set key value entries = entries ++ [(key, value)] := set_of_not_mem hnot value
      rw [List.foldl_cons]
      simp only [hset]
      rw [ih _ (by simpa using hd)]
      simp

/-- Entries from a list whose keys are distinct already are the list. -/
theorem ofList_of_distinct {list : List (String × α)} (h : Distinct list) : ofList list = list := by
  simpa [ofList] using foldl_set_of_distinct list [] h

/-- The last of a list's entries is set last. -/
theorem ofList_concat (list : List (String × α)) (entry : String × α) :
    ofList (list ++ [entry]) = set entry.1 entry.2 (ofList list) := by
  rw [ofList, List.foldl_append]
  rfl

/-- The keys of entries from a list are the list's, each where it first came. -/
theorem keys_ofList (list : List (String × α)) :
    (ofList list).keys = (Entries.keys list).eraseDups := by
  induction list using List.reverseRecOn with
  | nil => rfl
  | append_singleton list entry ih =>
      have hkeys : Entries.keys (list ++ [entry]) = Entries.keys list ++ [entry.1] := List.map_append
      rw [ofList_concat, hkeys, List.eraseDups_append, ← ih]
      by_cases hmem : entry.1 ∈ (ofList list).keys
      · have hlist : entry.1 ∈ Entries.keys list := by rwa [ih, List.mem_eraseDups] at hmem
        have hold : [entry.1].removeAll (Entries.keys list) = [] := by simp [List.removeAll, hlist]
        rw [keys_set_of_mem hmem, hold, List.eraseDups_nil, List.append_nil]
      · have hlist : entry.1 ∉ Entries.keys list := by rwa [ih, List.mem_eraseDups] at hmem
        have hnew : [entry.1].removeAll (Entries.keys list) = [entry.1] := by
          simp [List.removeAll, hlist]
        rw [set_of_not_mem hmem, hnew, keys, List.map_append]
        rfl

/-- A look-up in entries from a list finds the last value of the key. -/
theorem find?_ofList (key : String) (list : List (String × α)) :
    find? key (ofList list) = find? key list.reverse := by
  induction list using List.reverseRecOn with
  | nil => rfl
  | append_singleton list entry ih =>
      rw [ofList_concat, List.reverse_append, List.reverse_singleton, List.singleton_append, find?]
      split
      · next heq => rw [← heq, find?_set_self]
      · next hne => rw [find?_set_of_ne hne, ih]

theorem isEmpty_ofList (list : List (String × α)) : (ofList list).isEmpty = list.isEmpty := by
  cases list with
  | nil => rfl
  | cons entry rest =>
      rw [List.isEmpty_cons, List.isEmpty_eq_false_iff]
      exact ofList_ne_nil (List.cons_ne_nil entry rest)

/-! ## Values in the place of others -/

section

variable {β : Type} (f : α → β)

/-- Values may be mapped before one is set, or afterwards. -/
theorem set_map (key : String) (value : α) (entries : Entries α) :
    set key (f value) (entries.map fun entry => (entry.1, f entry.2)) =
      (set key value entries).map fun entry => (entry.1, f entry.2) := by
  induction entries with
  | nil => rfl
  | cons entry rest ih =>
      rw [List.map_cons, set, set]
      split
      · rfl
      · rw [ih, List.map_cons]

/-- It makes no difference whether values are replaced before or after repeated keys are dropped. -/
theorem ofList_map (list : List (String × α)) :
    ofList (list.map fun entry => (entry.1, f entry.2)) =
      (ofList list).map fun entry => (entry.1, f entry.2) := by
  induction list using List.reverseRecOn with
  | nil => rfl
  | append_singleton list entry ih =>
      rw [List.map_append, List.map_singleton, ofList_concat, ofList_concat, ih]
      exact set_map f entry.1 entry.2 (ofList list)

end

end Entries

end SampleTypes
