import SampleTypes.Files.Glob
import SampleTypes.Proofs.Files.Follow
import SampleTypes.Proofs.Outcomes

/-!
# Patterns that are paths

A file may have a name with characters that patterns use. Such a name is still read as a pattern. As long as
each of its characters is a token of its own (`Plain`), it matches itself: so its path, taken as a pattern, is
followed name by name to the file itself (`expand_matchesItself`). On the way the path is spelled anew, without single
points at its beginning and without empty names.
-/

namespace SampleTypes.Glob

/-! ## Reading a path as a pattern -/

/-- What a character stands for that is a token of its own. -/
def tokenOf (c : Char) : Token :=
  if c == '?' then .any else if c == '*' then .run else .exactly c

/-- Every character is a token of its own: there are no brackets and no two asterisks in a row. -/
structure Plain (chars : List Char) : Prop where
  noBracket : '[' ∉ chars
  noDescent : ¬['*', '*'] <:+: chars

theorem Plain.of_infix {chars part : List Char} (h : Plain chars) (hpart : part <:+: chars) : Plain part :=
  ⟨fun hmem => h.noBracket (hpart.subset hmem), fun hstars => h.noDescent (hstars.trans hpart)⟩

/-- A text without brackets and double asterisks is read character by character. -/
theorem tokensFrom_of_plain {chars : List Char} (h : Plain chars) (bound position : Nat)
    (before : Option Char) (hbound : chars.length ≤ bound) :
    tokensFrom bound position before chars = .ok (chars.map tokenOf) := by
  induction chars generalizing bound position before with
  | nil => cases bound <;> rfl
  | cons c chars ih =>
      obtain ⟨bound, rfl⟩ : ∃ less, bound = less + 1 := ⟨bound - 1, by grind⟩
      have hrest (position : Nat) (before : Option Char) :=
        ih (h.of_infix (List.suffix_cons c chars).isInfix) bound position before (by grind)
      have hbracket : c ≠ '[' := fun hc => h.noBracket (hc ▸ List.mem_cons_self)
      by_cases hany : c = '?'
      · subst hany
        rw [tokensFrom, hrest]
        rfl
      · by_cases hrun : c = '*'
        · subst hrun
          -- no second asterisk follows
          have hstars : chars.takeWhile (· == '*') = [] := by
            cases chars with
            | nil => rfl
            | cons d rest =>
                have hd : d ≠ '*' := fun hd => h.noDescent (hd ▸ ⟨[], rest, rfl⟩)
                simp [hd]
          rw [tokensFrom, if_pos (by simp [hstars]), hrest]
          rfl
        · rw [tokensFrom.eq_6 _ _ _ _ _ hany hrun hbracket, hrest]
          simp [tokenOf, hany, hrun, Functor.map, Except.map]

theorem tokens_of_plain {chars : List Char} (h : Plain chars) : tokens chars = .ok (chars.map tokenOf) :=
  tokensFrom_of_plain h _ _ _ Nat.le.refl

/-- The character is a wildcard on its own. -/
def isWild (c : Char) : Bool :=
  c == '?' || c == '*'

/-- A name is taken literally unless a character of it is wild. -/
theorem literal?_map_tokenOf (chars : List Char) :
    literal? (chars.map tokenOf) = if chars.any isWild then none else some chars := by
  induction chars with
  | nil => rfl
  | cons c chars ih =>
      by_cases hany : c = '?'
      · simp [hany, tokenOf, literal?, isWild]
      · by_cases hrun : c = '*'
        · simp [hrun, tokenOf, literal?, isWild]
        · by_cases hrest : chars.any isWild <;> simp_all [tokenOf, literal?, isWild]

/-- The part that a name of a path makes up. -/
def partOf (name : String) : Part :=
  Part.ofTokens (name.toList.map tokenOf)

/-- A name that is not taken literally has a character that patterns use. -/
theorem partOf_eq (name : String) :
    partOf name = .literal name ∨
      partOf name = .wild (name.toList.map tokenOf) ∧ name.toList.any isWild = true := by
  rw [partOf, Part.ofTokens, literal?_map_tokenOf]
  by_cases hwild : name.toList.any isWild = true
  · refine .inr ⟨?_, hwild⟩
    rw [if_pos hwild]
    refine if_neg fun hdescend => ?_
    obtain ⟨c, -, hc⟩ := List.mem_map.mp ((beq_iff_eq.mp hdescend) ▸ List.mem_singleton_self Token.descend)
    unfold tokenOf at hc
    grind
  · refine .inl ?_
    simp only [if_neg hwild, String.ofList_toList]

theorem partOf_ne_descend (name : String) : partOf name ≠ .descend := by
  rcases partOf_eq name with h | ⟨h, -⟩ <;> simp [h]

/-- Only parts that descend are collapsed. -/
theorem collapse_of_forall_ne {found : List Part} (h : ∀ part ∈ found, part ≠ .descend) :
    parts.collapse found = found := by
  induction found with
  | nil => rfl
  | cons part found ih =>
      rw [List.forall_mem_cons] at h
      cases part with
      | descend => exact absurd rfl h.1
      | literal name => rw [parts.collapse, ih h.2]; simp
      | wild tokens => rw [parts.collapse, ih h.2]; simp

/-- The parts of a pattern that does not end in a slash. -/
theorem parts_of_plain {chars : List Char} (h : Plain chars) (hlast : (Path.split chars).getLast? ≠ some []) :
    parts (Path.split chars) = .ok ((Path.split chars).map fun name => partOf (String.ofList name)) := by
  have htokens : ∀ name ∈ Path.split chars,
      Part.ofTokens <$> tokens name = .ok (partOf (String.ofList name)) := by
    intro name hname
    rw [tokens_of_plain (h.of_infix (Path.infix_of_mem_split hname)), partOf, String.toList_ofList]
    rfl
  have hmapM : (Path.split chars).mapM (fun name => Part.ofTokens <$> tokens name) =
      .ok ((Path.split chars).map fun name => partOf (String.ofList name)) := by
    refine mapM_eq_ok.mpr ?_
    rw [List.forall₂_map_right_iff, List.forall₂_same]
    exact htokens
  rw [parts, if_neg (by simpa using hlast), hmapM]
  exact congrArg Except.ok (collapse_of_forall_ne fun part hpart => by
    obtain ⟨name, -, rfl⟩ := List.mem_map.mp hpart
    exact partOf_ne_descend _)

/-! ## Matching -/

theorem anySuffix_self {condition : List Char → Bool} {chars : List Char} (h : condition chars = true) :
    anySuffix condition chars = true := by
  cases chars <;> simp [anySuffix, h]

/-- A name matches itself. -/
theorem matchesName_self (chars : List Char) : matchesName (chars.map tokenOf) chars = true := by
  induction chars with
  | nil => rfl
  | cons c chars ih =>
      by_cases hany : c = '?'
      · simpa [hany, tokenOf, matchesName] using ih
      · by_cases hrun : c = '*'
        · simp [hrun, tokenOf, matchesName, anySuffix, anySuffix_self ih]
        · simpa [hany, hrun, tokenOf, matchesName] using ih

/-! ## Following a path name by name -/

variable {files : Files} {path name : String} {rest : List String} {location : Location} {node : Node}

/-- The path begins with a name that leads on from the working directory. -/
def Settled (path : String) : Prop :=
  (Path.names path).head? ≠ some "" ∧ (Path.names path).head? ≠ some "."

theorem Settled.isHere_eq (h : Settled path) : Path.isHere path = false := by
  by_contra hhere
  rw [Bool.not_eq_false, Path.isHere, Bool.and_eq_true, beq_iff_eq] at hhere
  refine h.2 ?_
  have horigin := hhere.1
  unfold Path.start at horigin
  split at horigin
  · simp at horigin
  · next hchars => simp [Path.names, hchars, Path.split]
  · next rest hchars => simp [Path.names, hchars, Path.split]
  · simp at horigin

theorem settled_of_ne (hslash : '/' ∉ name.toList) (hempty : name ≠ "") (hhere : name ≠ ".") :
    Settled name := by
  rw [Settled, Path.names_of_not_mem hslash]
  simp [hempty, hhere]

theorem child_here (name : String) : child "." name = name :=
  if_pos (by decide)

theorem Settled.child_eq (h : Settled path) (name : String) : child path name = Path.join path name :=
  if_neg (by simp [h.isHere_eq])

theorem Settled.ne_empty (h : Settled path) : path ≠ "" := by
  rintro rfl
  exact h.1 (by decide)

theorem Settled.join (h : Settled path) (hslash : '/' ∉ name.toList) : Settled (Path.join path name) := by
  obtain ⟨above, habove, hpath, hnames⟩ := Path.names_join h.ne_empty hslash
  have hhead : (Path.names (Path.join path name)).head? = (Path.names path).head? := by
    rw [hnames, List.head?_append_of_ne_nil _ habove]
    rcases hpath with hpath | hpath <;> rw [hpath]
    rw [List.head?_append_of_ne_nil _ habove]
  rwa [Settled, hhead]

/-- The path may be used with the names behind it, and they lead to the node from where it leads. -/
structure LeadsTo (files : Files) (location : Location) (node : Node) (path : String) (rest : List String) :
    Prop where
  /-- The working directory, which is not written, or a path that is short enough. -/
  start : path = "." ∧ Path.size rest ≤ Files.pathLimit + 1 ∨
    Settled path ∧ path.utf8ByteSize + Path.size rest ≤ Files.pathLimit
  names : ∀ name ∈ rest, '/' ∉ name.toList ∧ '\x00' ∉ name.toList
  /-- The first name that is written is not empty. -/
  first : path = "." → (rest.dropWhile (· == ".")).head? ≠ some ""
  leads : ∃ between middle, files.locate path = .ok (.found between middle) ∧
    files.follow between middle rest = .ok (.found location node)

theorem locate_here (files : Files) : files.locate "." = .ok (.found files.here .directory) := by
  refine Files.locate_eq_ok_iff.mpr ⟨by decide, ?_⟩
  have hnames : Path.names "." = ["."] := by decide
  rw [if_neg (by decide), hnames, Files.follow, if_pos (by decide), Files.follow]

/-- Where a path leads, the next name leads on, and the path with it leads to the same place. -/
theorem LeadsTo.step (h : LeadsTo files location node path (name :: rest)) :
    ∃ between next inner, files.locate path = .ok (.found between .directory) ∧
      files.follow between .directory [name] = .ok (.found next inner) ∧
      files.locate (child path name) = .ok (.found next inner) ∧
      LeadsTo files location node (child path name) rest := by
  obtain ⟨between, middle, hpath, hfollow⟩ := h.leads
  obtain rfl := Files.eq_directory_of_follow_cons hfollow
  rw [← List.singleton_append] at hfollow
  obtain ⟨next, inner, hname, hrest⟩ := Files.follow_append_eq_found.mp hfollow
  obtain ⟨hslash, hnul⟩ := h.names name List.mem_cons_self
  have hnames := fun other hmem => h.names other (List.mem_cons_of_mem name hmem)
  have hsize : Path.size (name :: rest) = name.utf8ByteSize + 1 + Path.size rest := rfl
  suffices hchild : files.locate (child path name) = .ok (.found next inner) ∧
      (child path name = "." ∧ Path.size rest ≤ Files.pathLimit + 1 ∨
        Settled (child path name) ∧ (child path name).utf8ByteSize + Path.size rest ≤ Files.pathLimit) ∧
      (child path name = "." → (rest.dropWhile (· == ".")).head? ≠ some "") from
    ⟨between, next, inner, hpath, hname, hchild.1, hchild.2.1, hnames, hchild.2.2, next, inner,
      hchild.1, hrest⟩
  -- Either nothing has been named so far, or the path is one to which a name is joined.
  rcases h.start with ⟨rfl, hshort⟩ | ⟨hsettled, hshort⟩
  · have hfirst := h.first rfl
    rw [child_here]
    -- A single point stays in the working directory; any other name is where the path begins.
    by_cases hhere : name = "."
    · subst hhere
      refine ⟨?_, .inl ⟨rfl, by omega⟩, fun _ => ?_⟩
      · rw [← hname, hpath]
        rw [Files.follow, if_pos (by decide), Files.follow]
      · rwa [List.dropWhile_cons, if_pos (by decide)] at hfirst
    · have hempty : name ≠ "" := by
        rintro rfl
        exact hfirst rfl
      refine ⟨?_, .inr ⟨settled_of_ne hslash hempty hhere, by omega⟩, fun h => absurd h hhere⟩
      rw [locate_here, Except.ok.injEq, Files.Target.found.injEq] at hpath
      obtain ⟨rfl, -⟩ := hpath
      refine Files.locate_eq_ok_iff.mpr ⟨⟨hempty, hnul, by omega⟩, ?_⟩
      rwa [Path.isAbsolute_of_not_mem hslash, if_neg Bool.false_ne_true, Path.names_of_not_mem hslash]
  · rw [hsettled.child_eq]
    have hjoined := hsettled.join hslash
    refine ⟨Files.locate_join hpath hslash hnul (by omega) hname, .inr ⟨hjoined, ?_⟩, ?_⟩
    · have hone : "/".utf8ByteSize = 1 := by decide
      rw [Path.join_of_not_mem hsettled.ne_empty hslash]
      split <;> simp only [String.utf8ByteSize_append] <;> omega
    · intro hhere
      rw [hhere] at hjoined
      exact absurd (by decide) hjoined.2

/-- What names spell from the working directory on. -/
def spelled (names : List String) : String :=
  names.foldl child "."

/-- The names taken as parts of a pattern lead where they lead as names. -/
theorem LeadsTo.mem_expandFrom (h : LeadsTo files location node path rest) :
    rest.foldl child path ∈ expandFrom files false (rest.map partOf) path ∧
      files.locate (rest.foldl child path) = .ok (.found location node) := by
  induction rest generalizing path with
  | nil =>
      obtain ⟨between, middle, hpath, hfollow⟩ := h.leads
      rw [Files.follow, Except.ok.injEq] at hfollow
      exact ⟨by simp [expandFrom, result], hfollow ▸ hpath⟩
  | cons name rest ih =>
      obtain ⟨between, next, inner, hpath, hname, hchild, hrest⟩ := h.step
      obtain ⟨hmem, hlocate⟩ := ih hrest
      have hdirectory := Files.hasDirectory_of_locate hpath
      refine ⟨?_, hlocate⟩
      rw [List.map_cons, List.foldl_cons]
      -- A literal part is appended as it is; one with wildcards is looked for in the directory.
      rcases partOf_eq name with hpart | ⟨hpart, hwild⟩
      · rw [hpart, expandFrom]
        by_cases hpoints : (name == "." || name == "..") = true
        · rwa [if_pos hpoints, if_pos hdirectory]
        · rwa [if_neg hpoints, if_pos (Files.holds_of_locate hchild)]
      · -- a name with a wildcard is none that leads nowhere or up
        have hordinary : name ∈ files.children between := by
          refine Files.mem_children_of_follow ?_ ?_ ?_ hname <;> rintro rfl <;> exact absurd hwild (by decide)
        rw [hpart, expandFrom, if_pos hdirectory, List.mem_append]
        refine .inr (List.mem_flatMap.mpr ⟨(child path name, name), ?_, ?_⟩)
        · rw [childrenOf, Files.list_of_locate hpath]
          exact List.mem_map_of_mem hordinary
        · show _ ∈ if matchesName _ _ = true then _ else _
          rwa [if_pos (matchesName_self _)]

/-- The path, taken as a pattern, matches itself: it has a token for every character, and its first name but
for single points is not empty. -/
structure MatchesItself (input : String) : Prop where
  plain : Plain input.toList
  first : ((Path.names input).dropWhile (· == ".")).head? ≠ some ""

/-- A path that is found, and whose first name is not empty, does not start at the root. -/
theorem isAbsolute_of_first {input : String} (h : files.locate input = .ok (.found location node))
    (hfirst : ((Path.names input).dropWhile (· == ".")).head? ≠ some "") : Path.isAbsolute input = false := by
  obtain ⟨⟨hempty, -⟩, -⟩ := Files.locate_eq_ok_iff.mp h
  rw [Path.isAbsolute_eq hempty, beq_eq_false_iff_ne]
  intro hhead
  obtain ⟨names, hnames⟩ := List.head?_eq_some_iff.mp hhead
  rw [hnames] at hfirst
  exact hfirst rfl

/-- The names of a path that is found lead to its node. -/
theorem leadsTo_names {input : String} (h : files.locate input = .ok (.found location node))
    (hfirst : ((Path.names input).dropWhile (· == ".")).head? ≠ some "") :
    LeadsTo files location node "." (Path.names input) := by
  obtain ⟨⟨hempty, hnul, hsize⟩, hfollow⟩ := Files.locate_eq_ok_iff.mp h
  rw [isAbsolute_of_first h hfirst, if_neg Bool.false_ne_true] at hfollow
  refine ⟨.inl ⟨rfl, ?_⟩, fun name hname => ⟨Path.slash_not_mem_of_mem_names hname, ?_⟩, fun _ => hfirst,
    files.here, .directory, locate_here files, hfollow⟩
  · rw [Path.size_names]
    omega
  · obtain ⟨chars, hchars, rfl⟩ := List.mem_map.mp hname
    rw [String.toList_ofList]
    exact fun hmem => hnul ((Path.infix_of_mem_split hchars).subset hmem)

/-- The last name of a file's path is not empty. -/
theorem getLast?_names_of_file {input : String} {bytes : List UInt8}
    (h : files.locate input = .ok (.found location (.file bytes))) :
    (Path.names input).getLast? ≠ some "" := by
  intro hlast
  obtain ⟨above, habove⟩ := List.getLast?_eq_some_iff.mp hlast
  obtain ⟨-, hfollow⟩ := Files.locate_eq_ok_iff.mp h
  rw [habove, Files.follow_append_eq_found] at hfollow
  obtain ⟨between, middle, -, hempty⟩ := hfollow
  have hdirectory := Files.eq_directory_of_follow_cons hempty
  obtain ⟨-, hfile⟩ := Files.follow_empty_eq_found hempty
  rw [hdirectory] at hfile
  cases hfile

/-- A file's path is among those that it matches as a pattern, as it is spelled there. -/
theorem expand_matchesItself {input : String} {bytes : List UInt8}
    (h : files.locate input = .ok (.found location (.file bytes))) (hself : MatchesItself input) :
    expand files input = .ok (expandFrom files false ((Path.names input).map partOf) ".") ∧
      spelled (Path.names input) ∈ expandFrom files false ((Path.names input).map partOf) "." ∧
      files.locate (spelled (Path.names input)) = files.locate input := by
  obtain ⟨hplain, hfirst⟩ := hself
  have hlast := getLast?_names_of_file h
  have hparts : parts (Path.split input.toList) = .ok ((Path.names input).map partOf) := by
    rw [parts_of_plain hplain, Path.names, List.map_map]
    · rfl
    · intro hnil
      exact hlast (by rw [Path.names, List.getLast?_map, hnil]; rfl)
  -- A slash at the end would make the last name empty.
  have hslash : (input.toList.getLast? == some '/') = false := by
    rw [beq_eq_false_iff_ne]
    intro hslash
    obtain ⟨above, habove⟩ := List.getLast?_eq_some_iff.mp hslash
    exact hlast (by simp [Path.names, habove, Path.split_slash, Path.split])
  have hrelative : Path.isAbsolute input = false := isAbsolute_of_first h hfirst
  obtain ⟨hmem, hlocate⟩ := (leadsTo_names h hfirst).mem_expandFrom
  refine ⟨?_, hmem, hlocate.trans h.symm⟩
  rw [expand, tokens_of_plain hplain, hrelative, hslash]
  show parts (Path.split input.toList) >>= _ = _
  rw [hparts]
  rfl

/-- A single part that is wild matches what the working directory holds. -/
theorem expandFrom_wild_here {tokens : List Token} (hpoint : tokens.head? ≠ some (.exactly '.'))
    (files : Files) :
    expandFrom files false [.wild tokens] "." =
      (files.children files.here).filter fun name => matchesName tokens name.toList := by
  have hspecials : specials tokens "." = [] := if_neg (by simpa using hpoint)
  rw [expandFrom, if_pos (Files.hasDirectory_of_locate (locate_here files)), hspecials, List.flatMap_nil,
    List.nil_append, childrenOf, Files.list_of_locate (locate_here files), List.flatMap_map]
  simp only [child_here, expandFrom, result, Bool.false_and, Bool.false_eq_true, if_false]
  induction files.children files.here with
  | nil => rfl
  | cons name names ih =>
      rw [List.flatMap_cons, ih, List.filter_cons]
      split <;> rfl

/-- Names without wildcards match one path at most. -/
theorem length_expandFrom_le {names : List String} (h : ∀ name ∈ names, name.toList.any isWild = false)
    (files : Files) (onlyDirectories : Bool) (path : String) :
    (expandFrom files onlyDirectories (names.map partOf) path).length ≤ 1 := by
  induction names generalizing path with
  | nil =>
      rw [List.map_nil, expandFrom, result]
      split <;> simp
  | cons name names ih =>
      rw [List.forall_mem_cons] at h
      have hpart : partOf name = .literal name :=
        (partOf_eq name).resolve_right fun hwild => by simp [h.1] at hwild
      rw [List.map_cons, hpart, expandFrom]
      split <;> split <;> first | exact ih h.2 _ | exact Nat.zero_le _

/-- A path is spelled as it is if it has no empty names and does not begin with a single point. -/
structure Tidy (input : String) : Prop where
  noEmpty : ∀ name ∈ Path.names input, name ≠ ""
  noPoint : (Path.names input).head? ≠ some "."

/-- A path that is put together name by name has these names. -/
theorem names_foldl_child (h : Settled path) (hlast : (Path.names path).getLast? ≠ some "")
    (hrest : ∀ name ∈ rest, '/' ∉ name.toList ∧ name ≠ "") :
    Path.names (rest.foldl child path) = Path.names path ++ rest := by
  induction rest generalizing path with
  | nil => simp
  | cons name rest ih =>
      rw [List.forall_mem_cons] at hrest
      obtain ⟨⟨hslash, hne⟩, hrest⟩ := hrest
      obtain ⟨above, -, hpath, hnames⟩ := Path.names_join h.ne_empty hslash
      have hpath : Path.names path = above := hpath.resolve_right fun hempty => hlast (by simp [hempty])
      rw [List.foldl_cons, h.child_eq, ih (h.join hslash) (by simp [hnames, hne]) hrest, hnames, hpath,
        List.append_assoc, List.singleton_append]

theorem Tidy.spelled_eq {input : String} (h : Tidy input) : spelled (Path.names input) = input := by
  obtain ⟨name, rest, hnames⟩ := List.exists_cons_of_ne_nil (Path.names_ne_nil input)
  have hslash : ∀ other ∈ name :: rest, '/' ∉ other.toList :=
    hnames ▸ fun other => Path.slash_not_mem_of_mem_names
  have hempty := h.noEmpty
  have hpoint := h.noPoint
  rw [hnames] at hempty hpoint
  rw [List.forall_mem_cons] at hslash hempty
  refine Path.names_injective ?_
  rw [hnames, spelled, List.foldl_cons, child_here,
    names_foldl_child (settled_of_ne hslash.1 hempty.1 (by simpa using hpoint)),
    Path.names_of_not_mem hslash.1, List.singleton_append]
  · simpa [Path.names_of_not_mem hslash.1] using hempty.1
  · exact fun other hmem => ⟨hslash.2 other hmem, hempty.2 other hmem⟩

end SampleTypes.Glob
