import SampleTypes.CommandLine.Input
import SampleTypes.Proofs.Files.Glob

/-!
# Inputs that are paths

An input is taken as a path or as a pattern by its characters alone, whatever files there are. A path without
the characters of patterns is the only path it stands for. One with such characters is found where it is
spelled in tokens of one character: it then stands for itself, and for whatever else it matches.
-/

namespace SampleTypes.CommandLine

variable {files : Files} {input : String}

/-- Inputs stand for what each of them stands for, in order. -/
theorem resolveAll_eq_ok {inputs all : List String} :
    resolveAll files inputs = .ok all ↔
      ∃ each, List.Forall₂ (fun input paths => resolve files input = .ok paths) inputs each ∧
        each.flatten = all := by
  induction inputs generalizing all with
  | nil => simp [resolveAll]
  | cons input inputs ih =>
      simp only [resolveAll, except_bind_eq_ok, ih, List.forall₂_cons_left_iff, pure, Except.pure,
        Except.ok.injEq]
      constructor
      · rintro ⟨paths, hpaths, rest, ⟨each, heach, rfl⟩, rfl⟩
        exact ⟨paths :: each, ⟨paths, each, hpaths, heach, rfl⟩, rfl⟩
      · rintro ⟨-, ⟨paths, each, hpaths, heach, rfl⟩, rfl⟩
        exact ⟨paths, hpaths, each.flatten, ⟨each, heach, rfl⟩, rfl⟩

/-- An input without marks stands for itself, whether there is such a file or not. -/
theorem resolve_of_not_isPattern (h : Glob.isPattern input = false) : resolve files input = .ok [input] := by
  rw [resolve, if_neg (by simp [h])]

/-- A file's path that matches itself stands, among others, for a path of the same file. -/
theorem resolve_of_matchesItself {bytes : List UInt8} (hread : files.read input = .ok bytes)
    (hself : Glob.MatchesItself input) (hpattern : Glob.isPattern input = true) :
    ∃ paths, resolve files input = .ok paths ∧ ∃ path ∈ paths, files.locate path = files.locate input := by
  obtain ⟨location, hlocate⟩ := Files.read_eq_ok_iff.mp hread
  obtain ⟨hexpand, hmem, hsame⟩ := Glob.expand_matchesItself hlocate hself
  obtain ⟨first, rest, hpaths⟩ := List.exists_cons_of_ne_nil (List.ne_nil_of_mem hmem)
  rw [hpaths] at hexpand hmem
  refine ⟨first :: rest, ?_, _, hmem, hsame⟩
  rw [resolve, if_pos hpattern, hexpand]

/-- The input has no wildcards and no brackets, and is tidy if it has a brace. -/
structure StandsAlone (input : String) : Prop where
  noWildcard : input.toList.any Glob.isWild = false
  noBracket : '[' ∉ input.toList
  tidy : '{' ∈ input.toList → Glob.Tidy input

theorem isPattern_eq (input : String) : Glob.isPattern input =
    input.toList.any fun c => c == '*' || c == '?' || c == '[' || c == '{' :=
  String.contains_bool_eq

theorem resolve_of_no_mark (h : (input.toList.any fun c =>
      c == '*' || c == '?' || c == '[' || c == '{') = false) : resolve files input = .ok [input] :=
  resolve_of_not_isPattern ((isPattern_eq input).trans h)

/-- A pattern that stands for itself alone is one because of a brace. -/
theorem StandsAlone.brace (h : StandsAlone input) (hpattern : Glob.isPattern input = true) :
    '{' ∈ input.toList := by
  rw [isPattern_eq, List.any_eq_true] at hpattern
  obtain ⟨c, hmem, hc⟩ := hpattern
  have hwild := List.any_eq_false.mp h.noWildcard c hmem
  have hbracket : c ≠ '[' := fun hc => h.noBracket (hc ▸ hmem)
  simp only [Glob.isWild, Bool.or_eq_true, beq_iff_eq, not_or] at hwild hc
  obtain rfl : c = '{' := by tauto
  exact hmem

/-- A tidy path that stands for itself alone matches itself as a pattern. -/
theorem StandsAlone.matchesItself (h : StandsAlone input) (htidy : Glob.Tidy input) :
    Glob.MatchesItself input := by
  refine ⟨⟨h.noBracket, fun hstars => ?_⟩, ?_⟩
  · have hstar : '*' ∈ input.toList := hstars.subset List.mem_cons_self
    exact List.any_eq_false.mp h.noWildcard '*' hstar (by decide)
  · obtain ⟨name, names, hnames⟩ := List.exists_cons_of_ne_nil (Path.names_ne_nil input)
    have hempty := htidy.noEmpty
    have hpoint := htidy.noPoint
    rw [hnames] at hempty hpoint ⊢
    have hkeep : ¬(name == ".") = true := by simpa using hpoint
    rw [List.dropWhile_cons, if_neg hkeep]
    simpa using hempty name List.mem_cons_self

/-- A file's path without wildcards and brackets stands for itself alone. -/
theorem resolve_of_standsAlone {bytes : List UInt8} (hread : files.read input = .ok bytes)
    (h : StandsAlone input) : resolve files input = .ok [input] := by
  cases hpattern : Glob.isPattern input with
  | false => exact resolve_of_not_isPattern hpattern
  | true =>
      have htidy := h.tidy (h.brace hpattern)
      obtain ⟨location, hlocate⟩ := Files.read_eq_ok_iff.mp hread
      obtain ⟨hexpand, hmem, -⟩ := Glob.expand_matchesItself hlocate (h.matchesItself htidy)
      have hwild : ∀ name ∈ Path.names input, name.toList.any Glob.isWild = false := by
        intro name hname
        obtain ⟨chars, hchars, rfl⟩ := List.mem_map.mp hname
        rw [String.toList_ofList]
        refine List.any_eq_false.mpr fun c hc => ?_
        exact List.any_eq_false.mp h.noWildcard c ((Path.infix_of_mem_split hchars).subset hc)
      have hlength := Glob.length_expandFrom_le hwild files false "."
      obtain ⟨first, rest, hpaths⟩ := List.exists_cons_of_ne_nil (List.ne_nil_of_mem hmem)
      -- there is one path at most, and the input is among them
      rw [hpaths, List.length_cons] at hlength
      obtain rfl : rest = [] := List.eq_nil_of_length_eq_zero (by omega)
      rw [hpaths, List.mem_singleton, htidy.spelled_eq] at hmem
      rw [resolve, if_pos hpattern, hexpand, hpaths, hmem]

/-- **A path reads its file.** Inputs stand, in order, for the paths that each of them stands for. If an input
is the path of a file and, in case it has the characters of patterns, matches itself, then one of the paths
that it stands for is a path of that very file. Files' paths without wildcards and brackets, and tidy where
they have a brace, stand for themselves alone. -/
theorem literal_paths_found (files : Files) :
    (∀ inputs all, resolveAll files inputs = .ok all ↔
      ∃ each, List.Forall₂ (fun input paths => resolve files input = .ok paths) inputs each ∧
        each.flatten = all) ∧
    (∀ input bytes, files.read input = .ok bytes →
      (Glob.isPattern input = true → Glob.MatchesItself input) →
      ∃ paths, resolve files input = .ok paths ∧ ∃ path ∈ paths, files.locate path = files.locate input) ∧
    ∀ inputs, (∀ input ∈ inputs, StandsAlone input ∧ ∃ bytes, files.read input = .ok bytes) →
      resolveAll files inputs = .ok inputs := by
  refine ⟨fun inputs all => resolveAll_eq_ok, fun input bytes hread hself => ?_, fun inputs h => ?_⟩
  · cases hpattern : Glob.isPattern input with
    | false => exact ⟨[input], resolve_of_not_isPattern hpattern, input, List.mem_singleton_self input, rfl⟩
    | true => exact resolve_of_matchesItself hread (hself hpattern) hpattern
  · refine resolveAll_eq_ok.mpr ⟨inputs.map fun input => [input], ?_, List.flatMap_singleton' inputs⟩
    rw [List.forall₂_map_right_iff, List.forall₂_same]
    intro input hinput
    obtain ⟨halone, bytes, hread⟩ := h input hinput
    exact resolve_of_standsAlone hread halone

/-- Files with the characters of patterns in their names, and some that these names match. -/
def markedFiles : Files :=
  ⟨["w"], [(["w"], .directory), (["w", "a1"], .file [1]), (["w", "a[1]"], .file [2]),
    (["w", "b**c"], .file [3]), (["w", "d?e"], .file [4]), (["w", "dxe"], .file [5]),
    (["w", "f{g}"], .file [6])]⟩

theorem read_markedFiles :
    markedFiles.read "a1" = .ok [1] ∧ markedFiles.read "a[1]" = .ok [2] ∧
    markedFiles.read "b**c" = .ok [3] ∧ markedFiles.read "d?e" = .ok [4] ∧
    markedFiles.read ".//d?e" = .ok [4] ∧ markedFiles.read "f{g}" = .ok [6] := by
  simp only [Files.read_eq_ok_iff, Files.locate_eq_ok_iff]
  exact ⟨⟨_, by decide, rfl⟩, ⟨_, by decide, rfl⟩, ⟨_, by decide, rfl⟩, ⟨_, by decide, rfl⟩,
    ⟨_, by decide, rfl⟩, _, by decide, rfl⟩

theorem literal_paths_found_marked :
    (∃ paths, resolve markedFiles "d?e" = .ok paths ∧
      ∃ path ∈ paths, markedFiles.locate path = markedFiles.locate "d?e") ∧
    resolveAll markedFiles ["f{g}", "a1"] = .ok ["f{g}", "a1"] := by
  obtain ⟨-, hfound, hlists⟩ := literal_paths_found markedFiles
  obtain ⟨hplain, -, -, hwild, -, hbrace⟩ := read_markedFiles
  refine ⟨hfound "d?e" [4] hwild fun _ => ⟨⟨by decide, by decide⟩, by decide⟩, hlists _ ?_⟩
  rw [List.forall_mem_cons, List.forall_mem_singleton]
  exact ⟨⟨⟨by decide, by decide, fun _ => ⟨by decide, by decide⟩⟩, [6], hbrace⟩,
    ⟨⟨by decide, by decide, fun h => absurd h (by decide)⟩, [1], hplain⟩⟩

/-- A single part that is wild matches some of the files. -/
theorem expandFrom_markedFiles (tokens : List Glob.Token) (hpoint : tokens.head? ≠ some (.exactly '.')) :
    Glob.expandFrom markedFiles false [.wild tokens] "." =
      ["a1", "a[1]", "b**c", "d?e", "dxe", "f{g}"].filter fun name =>
        Glob.matchesName tokens name.toList := by
  rw [Glob.expandFrom_wild_here hpoint]
  exact congrArg _ (List.mergeSort_of_pairwise (by decide))

/-- Brackets do not match themselves, so that another file is read. Two asterisks in a row within a name are no
pattern at all, and an empty name behind a single point leads nowhere. A name with a wildcard may match
others. -/
theorem marked_paths_not_alone :
    (markedFiles.read "a[1]" = .ok [2] ∧ resolve markedFiles "a[1]" = .ok ["a1"] ∧
      markedFiles.read "a1" = .ok [1]) ∧
    (markedFiles.read "b**c" = .ok [3] ∧
      resolve markedFiles "b**c" = .error (.malformed "b**c" ⟨0, .notAlone⟩)) ∧
    (markedFiles.read ".//d?e" = .ok [4] ∧
      resolve markedFiles ".//d?e" = .error (.unmatched ".//d?e")) ∧
    markedFiles.read "d?e" = .ok [4] ∧ resolveAll markedFiles ["d?e"] = .ok ["d?e", "dxe"] := by
  obtain ⟨hother, hbracket, hstars, hwild, hempty, -⟩ := read_markedFiles
  have hpattern {input : String} (h : (input.toList.any fun c =>
      c == '*' || c == '?' || c == '[' || c == '{') = true) : Glob.isPattern input = true :=
    (isPattern_eq input).trans h
  refine ⟨⟨hbracket, ?_, hother⟩, ⟨hstars, ?_⟩, ⟨hempty, ?_⟩, hwild, ?_⟩
  · have hexpand : Glob.expand markedFiles "a[1]" = .ok ["a1"] :=
      congrArg Except.ok (expandFrom_markedFiles [.exactly 'a', .within [('1', '1')]] (by decide))
    rw [resolve, if_pos (hpattern (by decide)), hexpand]
  · have hexpand : Glob.expand markedFiles "b**c" = .error ⟨0, .notAlone⟩ := rfl
    rw [resolve, if_pos (hpattern (by decide)), hexpand]
  · have hnone : Glob.expandFrom markedFiles false
        [.literal ".", .literal "", .wild [.exactly 'd', .any, .exactly 'e']] "." = [] := by
      rw [Glob.expandFrom, if_pos (by decide), if_pos (Files.hasDirectory_of_locate (Glob.locate_here _)),
        Glob.expandFrom, if_neg (by decide)]
      exact if_neg (by decide)
    have hexpand : Glob.expand markedFiles ".//d?e" = .ok [] := congrArg Except.ok hnone
    rw [resolve, if_pos (hpattern (by decide)), hexpand]
  · have hexpand : Glob.expand markedFiles "d?e" = .ok ["d?e", "dxe"] :=
      congrArg Except.ok (expandFrom_markedFiles [.exactly 'd', .any, .exactly 'e'] (by decide))
    refine resolveAll_eq_ok.mpr ⟨[["d?e", "dxe"]], .cons ?_ .nil, rfl⟩
    rw [resolve, if_pos (hpattern (by decide)), hexpand]

end SampleTypes.CommandLine
