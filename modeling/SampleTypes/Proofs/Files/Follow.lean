import Mathlib.Data.List.Basic
import SampleTypes.Files
import SampleTypes.Proofs.Json.Pointer

/-!
# Following paths

The names of a path are all that there is to it (`names_injective`), and a name that is joined to a path is
the last of its names. So the names that lead to a node can be cut anywhere: the node is where the rest of
them leads from the node that the first of them lead to (`follow_append_eq_found`).
-/

namespace SampleTypes

namespace Path

/-! ## The names of a path -/

theorem split_ne_nil (path : List Char) : split path ≠ [] := by
  induction path with
  | nil => simp [split]
  | cons c path ih =>
      by_cases hslash : c = '/'
      · simp [split, hslash]
      · obtain ⟨name, names, hsplit⟩ := List.exists_cons_of_ne_nil ih
        simp [split, hslash, hsplit]

/-- A slash parts a path from what is behind it. -/
theorem split_slash (path rest : List Char) : split (path ++ '/' :: rest) = split path ++ split rest := by
  induction path with
  | nil => simp [split]
  | cons c path ih =>
      by_cases hslash : c = '/'
      · simp [split, hslash, ih]
      · obtain ⟨name, names, hsplit⟩ := List.exists_cons_of_ne_nil (split_ne_nil path)
        simp [split, hslash, ih, hsplit]

/-- Names have no slash in them: it is where a path is split. -/
theorem slash_not_mem_of_mem_split {path name : List Char} (h : name ∈ split path) : '/' ∉ name := by
  induction path generalizing name with
  | nil =>
      rw [split, List.mem_singleton] at h
      subst h
      exact List.not_mem_nil
  | cons c path ih =>
      by_cases hslash : c = '/'
      · rw [split, if_pos (beq_iff_eq.mpr hslash), List.mem_cons] at h
        rcases h with rfl | h
        · exact List.not_mem_nil
        · exact ih h
      · obtain ⟨first, names, hsplit⟩ := List.exists_cons_of_ne_nil (split_ne_nil path)
        rw [split, if_neg (by simpa using hslash), hsplit, List.mem_cons] at h
        rcases h with rfl | h
        · have hfirst := ih (hsplit ▸ List.mem_cons_self)
          exact List.not_mem_cons_of_ne_of_not_mem (Ne.symm hslash) hfirst
        · exact ih (hsplit ▸ List.mem_cons_of_mem first h)

theorem prefix_of_split {path name : List Char} {names : List (List Char)} (h : split path = name :: names) :
    name <+: path := by
  induction path generalizing name names with
  | nil =>
      rw [split, List.cons.injEq] at h
      exact h.1 ▸ List.nil_prefix
  | cons c path ih =>
      by_cases hslash : c = '/'
      · rw [split, if_pos (beq_iff_eq.mpr hslash), List.cons.injEq] at h
        exact h.1 ▸ List.nil_prefix
      · obtain ⟨first, rest, hsplit⟩ := List.exists_cons_of_ne_nil (split_ne_nil path)
        rw [split, if_neg (by simpa using hslash), hsplit, List.cons.injEq] at h
        exact h.1 ▸ List.cons_prefix_cons.mpr ⟨rfl, ih hsplit⟩

theorem infix_of_mem_split {path name : List Char} (h : name ∈ split path) : name <:+: path := by
  induction path with
  | nil =>
      rw [split, List.mem_singleton] at h
      exact h ▸ List.infix_rfl
  | cons c path ih =>
      obtain ⟨first, names, hsplit⟩ := List.exists_cons_of_ne_nil (split_ne_nil (c :: path))
      rw [hsplit, List.mem_cons] at h
      rcases h with rfl | h
      · exact (prefix_of_split hsplit).isInfix
      · refine (ih ?_).trans (List.suffix_cons c path).isInfix
        by_cases hslash : c = '/'
        · rw [split, if_pos (beq_iff_eq.mpr hslash), List.cons.injEq] at hsplit
          exact hsplit.2 ▸ h
        · obtain ⟨second, rest, hrest⟩ := List.exists_cons_of_ne_nil (split_ne_nil path)
          rw [split, if_neg (by simpa using hslash), hrest, List.cons.injEq] at hsplit
          exact hrest ▸ List.mem_cons_of_mem second (hsplit.2 ▸ h)

/-- The path that names are the names of. -/
theorem intercalate_split (path : List Char) : ['/'].intercalate (split path) = path := by
  induction path with
  | nil => rfl
  | cons c path ih =>
      obtain ⟨name, names, hsplit⟩ := List.exists_cons_of_ne_nil (split_ne_nil path)
      rw [hsplit] at ih
      by_cases hslash : c = '/'
      · simp [split, hslash, hsplit, ih]
      · cases names <;> simp_all [split]

theorem names_ne_nil (path : String) : names path ≠ [] := by
  simp [names, split_ne_nil]

/-- Only a path that ends in a slash has an empty name at its end. -/
theorem getLast?_split {path : List Char} (h : (split path).getLast? = some []) :
    path = [] ∨ path.getLast? = some '/' := by
  induction path with
  | nil => exact .inl rfl
  | cons c path ih =>
      right
      obtain ⟨name, names, hsplit⟩ := List.exists_cons_of_ne_nil (split_ne_nil path)
      by_cases hslash : c = '/'
      · rw [split, if_pos (beq_iff_eq.mpr hslash), hsplit, List.getLast?_cons_cons, ← hsplit] at h
        rcases ih h with rfl | hlast
        · simp [hslash]
        · simp [List.getLast?_cons, hlast]
      · rw [split, if_neg (by simpa using hslash), hsplit] at h
        cases names with
        | nil => simp at h
        | cons next names =>
            rw [List.getLast?_cons_cons] at h
            rw [hsplit, List.getLast?_cons_cons] at ih
            rcases ih h with rfl | hlast
            · simp [split] at hsplit
            · simp [List.getLast?_cons, hlast]

/-- The last name is empty only in the empty path and behind a slash at the end. -/
theorem getLast?_names {path : String} (h : (names path).getLast? = some "") :
    path = "" ∨ path.toList.getLast? = some '/' := by
  rw [names, List.getLast?_map, Option.map_eq_some_iff] at h
  obtain ⟨name, hname, hempty⟩ := h
  rw [String.ofList_eq_empty_iff] at hempty
  exact (getLast?_split (hempty ▸ hname)).imp_left String.toList_eq_nil_iff.mp

/-- The names tell the path, as slashes join them. -/
theorem names_injective {path other : String} (h : names path = names other) : path = other := by
  have hsplit : split path.toList = split other.toList :=
    List.map_injective_iff.mpr (fun _ _ => String.ofList_injective) h
  rw [← String.toList_inj, ← intercalate_split path.toList, hsplit, intercalate_split]

theorem slash_not_mem_of_mem_names {path name : String} (h : name ∈ names path) : '/' ∉ name.toList := by
  obtain ⟨chars, hmem, rfl⟩ := List.mem_map.mp h
  rw [String.toList_ofList]
  exact slash_not_mem_of_mem_split hmem

theorem names_of_not_mem {name : String} (h : '/' ∉ name.toList) : names name = [name] := by
  rw [names, split_of_not_mem h, List.map_singleton, String.ofList_toList]

theorem names_slash (path : String) {name : String} (h : '/' ∉ name.toList) :
    names (path ++ "/" ++ name) = names path ++ [name] := by
  have htext : (path ++ "/" ++ name).toList = path.toList ++ '/' :: name.toList := by simp
  rw [names, htext, split_slash, split_of_not_mem h, List.map_append, List.map_singleton,
    String.ofList_toList]
  rfl

theorem isAbsolute_of_not_mem {name : String} (h : '/' ∉ name.toList) : isAbsolute name = false := by
  cases hchars : name.toList with
  | nil => simp [isAbsolute, hchars]
  | cons c rest =>
      have hc : c ≠ '/' := fun hc => h (by simp [hchars, hc])
      simp [isAbsolute, hchars, hc]

/-- The first name of an absolute path is empty. -/
theorem isAbsolute_eq {path : String} (h : path ≠ "") :
    isAbsolute path = ((names path).head? == some "") := by
  cases hchars : path.toList with
  | nil => exact absurd (String.toList_eq_nil_iff.mp hchars) h
  | cons c rest =>
      by_cases hslash : c = '/'
      · simp [isAbsolute, names, hchars, split, hslash]
      · obtain ⟨name, others, hsplit⟩ := List.exists_cons_of_ne_nil (split_ne_nil rest)
        simp [isAbsolute, names, hchars, split, hslash, hsplit]

/-- Joined to a path, a name comes behind exactly one slash. -/
theorem join_of_not_mem {path name : String} (hpath : path ≠ "") (hname : '/' ∉ name.toList) :
    join path name =
      if path.toList.getLast? == some '/' then path ++ name else path ++ "/" ++ name := by
  simp [join, isAbsolute_of_not_mem hname, hpath]

/-- A name that is joined to a path is the last one. A path that ends in a slash has an empty name at its
end, which gives way. -/
theorem names_join {path name : String} (hpath : path ≠ "") (hname : '/' ∉ name.toList) :
    ∃ above, above ≠ [] ∧ (names path = above ∨ names path = above ++ [""]) ∧
      names (join path name) = above ++ [name] := by
  have hjoin := join_of_not_mem hpath hname
  by_cases hlast : path.toList.getLast? = some '/'
  · obtain ⟨above, habove⟩ := List.getLast?_eq_some_iff.mp hlast
    have hpathEq : path = String.ofList above ++ "/" ++ "" := by
      rw [← String.toList_inj]
      simpa using habove
    refine ⟨names (String.ofList above), names_ne_nil _, .inr ?_, ?_⟩
    · conv_lhs => rw [hpathEq]
      exact names_slash _ (by simp)
    · rw [hjoin, if_pos (beq_iff_eq.mpr hlast), hpathEq, String.append_empty]
      exact names_slash _ hname
  · refine ⟨names path, names_ne_nil path, .inl rfl, ?_⟩
    rw [hjoin, if_neg (by simpa using hlast)]
    exact names_slash path hname

/-- The bytes of names, counted with a slash behind each. -/
def size : List String → Nat
  | [] => 0
  | name :: names => name.utf8ByteSize + 1 + size names

/-- Names take as much as their path and another slash. -/
theorem size_names (path : String) : size (names path) = path.utf8ByteSize + 1 := by
  suffices h : ∀ chars : List Char, size ((split chars).map String.ofList) =
      (String.ofList chars).utf8ByteSize + 1 by
    rw [names, h path.toList, String.ofList_toList]
  intro chars
  induction chars with
  | nil => rfl
  | cons c chars ih =>
      obtain ⟨name, names, hsplit⟩ := List.exists_cons_of_ne_nil (split_ne_nil chars)
      by_cases hslash : c = '/'
      · subst hslash
        have hsize : "/".utf8ByteSize = 1 := by decide
        simp [split, size, ih, hsize]
        omega
      · simp [split, hslash, hsplit, size] at ih ⊢
        omega

end Path

namespace Files

variable {files : Files}

/-! ## Following names -/

/-- The names that lead to a node can be cut anywhere. -/
theorem follow_append_eq_found {start location : Location} {first node : Node} {names rest : List String} :
    files.follow start first (names ++ rest) = .ok (.found location node) ↔
      ∃ between middle, files.follow start first names = .ok (.found between middle) ∧
        files.follow between middle rest = .ok (.found location node) := by
  induction names generalizing start first with
  | nil => simp [follow]
  | cons name names ih =>
      cases first with
      | file bytes => simp [follow]
      | directory =>
          rw [List.cons_append, follow, follow]
          split
          · exact ih
          · split
            · exact ih
            · split
              · simp
              · split
                · exact ih
                · constructor
                  · split <;> simp
                  · rintro ⟨between, middle, hfound, -⟩
                    split at hfound <;> simp at hfound

/-- Only a directory has names behind it. -/
theorem eq_directory_of_follow_cons {start location : Location} {first node : Node} {name : String}
    {names : List String} (h : files.follow start first (name :: names) = .ok (.found location node)) :
    first = .directory := by
  cases first with
  | file bytes => simp [follow] at h
  | directory => rfl

/-- An empty name leads nowhere. -/
theorem follow_empty_eq_found {start location : Location} {first node : Node}
    (h : files.follow start first [""] = .ok (.found location node)) : location = start ∧ node = first := by
  obtain rfl := eq_directory_of_follow_cons h
  rw [follow, if_pos (by decide), follow, Except.ok.injEq, Target.found.injEq] at h
  exact ⟨h.1.symm, h.2.symm⟩

/-- What an ordinary name leads to is in the directory. -/
theorem mem_children_of_follow {start location : Location} {node : Node} {name : String}
    (hempty : name ≠ "") (hhere : name ≠ ".") (habove : name ≠ "..")
    (h : files.follow start .directory [name] = .ok (.found location node)) :
    name ∈ files.children start := by
  rw [follow, if_neg (by simp [hempty, hhere]), if_neg (by simp [habove])] at h
  split at h
  · simp at h
  · split at h
    · next found hfound =>
        -- the node is one of the tree, as its location is not the root
        rw [node?, if_neg (by simp), Option.map_eq_some_iff] at hfound
        obtain ⟨entry, hentry, -⟩ := hfound
        have hplace : entry.1 = start ++ [name] := by simpa using List.find?_some hentry
        rw [children, List.mem_mergeSort, List.mem_filterMap]
        exact ⟨entry, List.mem_of_find?_eq_some hentry, by simp [hplace]⟩
    · split at h <;> simp at h

/-! ## Places of paths -/

/-- A path leads on from the directory that it starts in, if it can be used at all. -/
theorem locate_eq_ok_iff {path : String} {target : Target} :
    files.locate path = .ok target ↔
      (path ≠ "" ∧ '\x00' ∉ path.toList ∧ path.utf8ByteSize ≤ pathLimit) ∧
        files.follow (if Path.isAbsolute path then [] else files.here) .directory (Path.names path) =
          .ok target := by
  rw [locate, followPath, String.contains_char_eq]
  by_cases hempty : path = ""
  · simp [hempty]
  · by_cases hnul : '\x00' ∈ path.toList
    · simp [hempty, hnul]
    · by_cases hlong : pathLimit < path.utf8ByteSize
      · simp [hempty, hnul, hlong, Nat.not_le_of_lt hlong]
      · simp [hempty, hnul, hlong, Nat.not_lt.mp hlong]

theorem holds_of_locate {path : String} {location : Location} {node : Node}
    (h : files.locate path = .ok (.found location node)) : files.holds path = true := by
  rw [holds, h]

theorem hasDirectory_of_locate {path : String} {location : Location}
    (h : files.locate path = .ok (.found location .directory)) : files.hasDirectory path = true := by
  rw [hasDirectory, h]

theorem list_of_locate {path : String} {location : Location}
    (h : files.locate path = .ok (.found location .directory)) :
    files.list path = files.children location := by
  rw [list, h]

/-- A name behind a path leads on from where the path leads. -/
theorem locate_join {path name : String} {between location : Location} {middle node : Node}
    (h : files.locate path = .ok (.found between middle)) (hslash : '/' ∉ name.toList)
    (hnul : '\x00' ∉ name.toList) (hsize : path.utf8ByteSize + name.utf8ByteSize + 1 ≤ pathLimit)
    (hname : files.follow between middle [name] = .ok (.found location node)) :
    files.locate (Path.join path name) = .ok (.found location node) := by
  obtain ⟨⟨hne, hpathNul, -⟩, hfollow⟩ := locate_eq_ok_iff.mp h
  have hjoin := Path.join_of_not_mem hne hslash
  have hjoinNe : Path.join path name ≠ "" := by
    rw [hjoin]
    split <;> simp [hne]
  obtain ⟨above, habove, hpathNames, hnames⟩ := Path.names_join hne hslash
  have hhead : (Path.names (Path.join path name)).head? = (Path.names path).head? := by
    rw [hnames, List.head?_append_of_ne_nil _ habove]
    rcases hpathNames with hpathNames | hpathNames <;> rw [hpathNames]
    rw [List.head?_append_of_ne_nil _ habove]
  refine locate_eq_ok_iff.mpr ⟨⟨hjoinNe, ?_, ?_⟩, ?_⟩
  · rw [hjoin]
    split <;> simp [hpathNul, hnul]
  · have hone : "/".utf8ByteSize = 1 := by decide
    rw [hjoin]
    split <;> simp only [String.utf8ByteSize_append] <;> omega
  · rw [Path.isAbsolute_eq hjoinNe, hhead, ← Path.isAbsolute_eq hne, hnames, follow_append_eq_found]
    refine ⟨between, middle, ?_, hname⟩
    rcases hpathNames with hpathNames | hpathNames
    · rwa [hpathNames] at hfollow
    · -- the path without the slash at its end leads to the same place
      rw [hpathNames, follow_append_eq_found] at hfollow
      obtain ⟨place, found, hplace, hempty⟩ := hfollow
      obtain ⟨rfl, rfl⟩ := follow_empty_eq_found hempty
      exact hplace

/-- A file that is read is there. -/
theorem read_eq_ok_iff {path : String} {bytes : List UInt8} :
    files.read path = .ok bytes ↔ ∃ location, files.locate path = .ok (.found location (.file bytes)) := by
  rw [read]
  split <;> simp_all

end Files

end SampleTypes
