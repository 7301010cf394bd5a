import SampleTypes.Error

/-!
# Pointers and their keys

A pointer keeps the keys it was written from, whatever characters are in them (`keys?_write`,
`exists_splitOn_write`). An escaped key holds no slash, so the slashes of a pointer part its keys. Escapes are made by
two replacements, the one for tildes first (`toList_escape`), and undone by two others in the opposite order:
when the slashes come back, a tilde still begins an escape, wherever it stands.
-/

namespace SampleTypes

namespace Path

/-- To split a path at its slashes is what splitting lists does. -/
theorem split_eq_splitOn (path : List Char) : split path = path.splitOn '/' := by
  induction path with
  | nil => rfl
  | cons c path ih =>
      rw [split, List.splitOn_cons_eq_if_modifyHead, ih]
      split
      · rfl
      · cases hnames : path.splitOn '/' with
        | nil => exact absurd hnames (List.splitOn_ne_nil '/' path)
        | cons name names => rfl

/-- A name without slashes is the only one before the next slash. -/
theorem split_append {name : List Char} (h : '/' ∉ name) (rest : List Char) :
    split (name ++ '/' :: rest) = name :: split rest := by
  induction name with
  | nil => simp [split]
  | cons c name ih =>
      rw [List.mem_cons, not_or] at h
      have hne : c ≠ '/' := fun hc => h.1 hc.symm
      simp [split, hne, ih h.2]

theorem split_of_not_mem {name : List Char} (h : '/' ∉ name) : split name = [name] := by
  induction name with
  | nil => rfl
  | cons c name ih =>
      rw [List.mem_cons, not_or] at h
      have hne : c ≠ '/' := fun hc => h.1 hc.symm
      simp [split, hne, ih h.2]

/-- Names that are written with a slash before each are what the slashes part. -/
theorem split_flatMap {name : List Char} {names : List (List Char)} (h : '/' ∉ name)
    (hnames : ∀ other ∈ names, '/' ∉ other) :
    split (name ++ names.flatMap fun other => '/' :: other) = name :: names := by
  induction names generalizing name with
  | nil => simp [split_of_not_mem h]
  | cons next names ih =>
      rw [List.forall_mem_cons] at hnames
      rw [List.flatMap_cons, List.cons_append, split_append h, ih hnames.1 hnames.2]

end Path

namespace Json.Pointer

/-! ## Escapes -/

theorem replacePair_cons_of_ne {a b c x : Char} (h : x ≠ a) (rest : List Char) :
    replacePair a b c (x :: rest) = x :: replacePair a b c rest := by
  cases rest with
  | nil => simp [replacePair]
  | cons y rest => simp [replacePair, h]

/-- Puts a text in the place of a character, wherever that stands. -/
def replaceChar (c : Char) (text key : List Char) : List Char :=
  key.flatMap fun d => if d = c then text else [d]

/-- A key is escaped by replacing its tildes, and then its slashes. -/
theorem toList_escape (key : String) : (escape key).toList =
    replaceChar '/' ['~', '1'] (replaceChar '~' ['~', '0'] key.toList) := by
  rw [escape, String.toList_ofList, replaceChar, replaceChar, List.flatMap_assoc]
  congr 1
  funext c
  by_cases htilde : c = '~'
  · subst htilde
    rfl
  · by_cases hslash : c = '/'
    · subst hslash
      rfl
    · simp [escapeChar, htilde, hslash]

/-- Escaping leaves no slash. -/
theorem slash_not_mem_escapeChar (c : Char) : '/' ∉ escapeChar c := by
  unfold escapeChar
  split
  · decide
  · split
    · decide
    · next hslash =>
        intro hmem
        apply hslash
        rw [← List.mem_singleton.mp hmem]
        rfl

theorem slash_not_mem_escape (key : String) : '/' ∉ (escape key).toList := by
  rw [escape, String.toList_ofList, List.mem_flatMap]
  rintro ⟨c, -, hc⟩
  exact slash_not_mem_escapeChar c hc

/-- Once the slashes are back, only the tildes of a key are escaped. -/
theorem replacePair_escape (key : List Char) :
    replacePair '~' '1' '/' (key.flatMap escapeChar) = replaceChar '~' ['~', '0'] key := by
  induction key with
  | nil => rfl
  | cons c key ih =>
      rw [replaceChar, List.flatMap_cons, List.flatMap_cons, ← replaceChar, ← ih]
      by_cases htilde : c = '~'
      · subst htilde
        show replacePair '~' '1' '/' ('~' :: '0' :: key.flatMap escapeChar) = _
        simp [replacePair, replacePair_cons_of_ne]
      · by_cases hslash : c = '/'
        · subst hslash
          show replacePair '~' '1' '/' ('~' :: '1' :: key.flatMap escapeChar) = _
          simp [replacePair]
        · have hplain : escapeChar c = [c] := by simp [escapeChar, htilde, hslash]
          rw [hplain, if_neg htilde]
          exact replacePair_cons_of_ne htilde _

/-- Tildes that were escaped come back as tildes. -/
theorem replacePair_tildes (key : List Char) :
    replacePair '~' '0' '~' (replaceChar '~' ['~', '0'] key) = key := by
  induction key with
  | nil => rfl
  | cons c key ih =>
      rw [replaceChar, List.flatMap_cons, ← replaceChar]
      split
      · next htilde =>
          subst htilde
          simp [replacePair, ih]
      · next htilde =>
          rw [List.singleton_append, replacePair_cons_of_ne htilde, ih]

/-- A key is read back from its escaped form. -/
theorem unescape_escape (key : String) : unescape (escape key) = key := by
  rw [unescape, escape, String.toList_ofList, replacePair_escape, replacePair_tildes,
    String.ofList_toList]

-- The other way round, the escaped tilde of the key `~1` would come back as a part of an escaped slash.
example : replacePair '~' '1' '/' (replacePair '~' '0' '~' (escape "~1").toList) = ['/'] := by
  decide

/-! ## Whole pointers -/

theorem toList_write (keys : List String) :
    (write keys).toList = (keys.map fun key => (escape key).toList).flatMap ('/' :: ·) := by
  induction keys with
  | nil => rfl
  | cons key keys ih =>
      have hcons : write (key :: keys) = "/" ++ escape key ++ write keys := by
        simp only [write, List.map_cons, String.join_cons]
      rw [hcons, String.toList_append, String.toList_append, ih]
      rfl

/-- **A pointer keeps its keys.** -/
theorem keys?_write (keys : List String) : keys? (write keys) = some keys := by
  have hsplit : Path.split (write keys).toList = [] :: keys.map fun key => (escape key).toList := by
    rw [toList_write]
    apply Path.split_flatMap (List.not_mem_nil : '/' ∉ [])
    intro name hname
    obtain ⟨key, -, rfl⟩ := List.mem_map.mp hname
    exact slash_not_mem_escape key
  rw [keys?, hsplit]
  cases keys with
  | nil => rfl
  | cons key keys => simp [unescape_escape, Function.comp_def]

/-- A pointer begins with a slash, and the slashes behind it part the escaped keys. -/
theorem exists_splitOn_write {keys : List String} (h : keys ≠ []) :
    ∃ rest, (write keys).toList = '/' :: rest ∧
      rest.splitOn '/' = keys.map fun key => (escape key).toList := by
  cases keys with
  | nil => exact absurd rfl h
  | cons key keys =>
      rw [toList_write]
      refine ⟨_, rfl, ?_⟩
      rw [← Path.split_eq_splitOn]
      apply Path.split_flatMap (slash_not_mem_escape key)
      intro name hname
      obtain ⟨other, -, rfl⟩ := List.mem_map.mp hname
      exact slash_not_mem_escape other

theorem write_injective : Function.Injective write := by
  intro keys others h
  have hread : keys? (write keys) = keys? (write others) := congrArg keys? h
  rw [keys?_write, keys?_write] at hread
  exact Option.some.inj hread

end Json.Pointer

namespace InferenceFault

theorem pointer_of_ne_nil {path : List String} (h : path ≠ []) :
    pointer path = Json.Pointer.write path := by
  simp [pointer, h]

/-- The text for the value itself is that for the empty key. -/
theorem pointer_eq_pointer_nil_iff {path : List String} (h : path ≠ []) :
    pointer path = pointer [] ↔ path = [""] := by
  have hempty : pointer [] = Json.Pointer.write [""] := rfl
  rw [hempty, pointer_of_ne_nil h]
  exact Json.Pointer.write_injective.eq_iff

end InferenceFault

end SampleTypes
