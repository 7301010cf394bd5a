import SampleTypes.Build
import SampleTypes.Proofs.Graph.Cycles

/-!
# Pointers to cycles

A cycle is reported by the pointer along the keys that lead to it. Nothing is lost by that: the keys, which may
be any texts, can be read off the pointer, so whoever is told of a cycle can tell where it is
(`cycle_pointers_lossless`). That there is a key to read at all is because a value cannot be met inside itself
before it has been entered.
-/

namespace SampleTypes

/-- No type or no shape is inferred from the value, because of a cycle at the end of the path. -/
inductive Source.HasCycle (source : Source) (path : List String) : Prop
  | type (policy : Policy) (h : source.infer policy = .error (.cycle path)) : HasCycle source path
  | shape (policy : Policy) (h : source.inferShape policy = .error (.cycle path)) :
      HasCycle source path

/-- The path in a fault that agrees with the routes back to a container is not empty. -/
theorem Graph.ne_nil_of_verdict {α : Type} {graph : Graph} {root : Nat}
    {outcome : Except InferenceFault α} {path : List String}
    (h : Verdict (graph.Returns root) [] outcome) (hcycle : outcome = .error (.cycle path)) :
    path ≠ [] :=
  ((Graph.detects_of_verdict h).pointer path hcycle).1

/-- A cycle is met behind a key. -/
theorem Source.HasCycle.ne_nil {source : Source} {path : List String} (h : source.HasCycle path) :
    path ≠ [] := by
  cases source with
  | document value =>
      -- A document has no cycles: if it has no shape, it is no object.
      cases h with
      | type _ h => cases h
      | shape _ h => cases value <;> cases h
  | node graph root =>
      cases h with
      | type policy h => exact Graph.ne_nil_of_verdict (graph.verdict_infer policy root) h
      | shape policy h =>
          by_cases hkeyed : ∃ entries, graph.look root = .keyed entries
          · obtain ⟨entries, hroot⟩ := hkeyed
            exact Graph.ne_nil_of_verdict (Graph.verdict_inferShape policy hroot) h
          · have hroot : ∀ entries, graph.look root ≠ .keyed entries :=
              fun entries heq => hkeyed ⟨entries, heq⟩
            rw [Source.inferShape, Graph.inferShape_of_not_keyed policy hroot] at h
            cases h

namespace InferenceFault

variable {path other : List String}

/-- Different paths have different pointers, as long as they are not empty. -/
theorem pointer_injective (hpath : path ≠ []) (hother : other ≠ [])
    (h : pointer path = pointer other) : path = other := by
  rw [pointer_of_ne_nil hpath, pointer_of_ne_nil hother] at h
  exact Json.Pointer.write_injective h

/-- The wording of a cycle tells its pointer. -/
theorem pointer_eq_of_message_eq (h : message (.cycle path) = message (.cycle other)) :
    pointer path = pointer other := by
  have hfront : "cycle detected at " ++ pointer path = "cycle detected at " ++ pointer other :=
    (String.append_left_inj ": a container contains itself").mp h
  exact (String.append_right_inj "cycle detected at ").mp hfront

/-- A pointer along keys: each of them is put behind a slash, with its tildes and then its slashes replaced. -/
theorem toList_pointer (h : path ≠ []) : (pointer path).toList = path.flatMap fun key =>
    '/' :: Json.Pointer.replaceChar '/' ['~', '1']
      (Json.Pointer.replaceChar '~' ['~', '0'] key.toList) := by
  rw [pointer_of_ne_nil h, Json.Pointer.toList_write, List.flatMap_map]
  simp only [Json.Pointer.toList_escape]

/-- A pointer along keys is read from behind its first slash: what the other slashes part are the keys, once
their escapes are undone. -/
theorem exists_keys_pointer (h : path ≠ []) : ∃ rest, (pointer path).toList = '/' :: rest ∧
    (rest.splitOn '/').map (fun part => Json.Pointer.unescape (String.ofList part)) = path := by
  obtain ⟨rest, hrest, hparts⟩ := Json.Pointer.exists_splitOn_write h
  refine ⟨rest, by rw [pointer_of_ne_nil h, hrest], ?_⟩
  rw [hparts, List.map_map]
  simp [Function.comp_def, Json.Pointer.unescape_escape]

end InferenceFault

/-- **Pointers to cycles are lossless.** The pointer along a path of any keys, at least one, is what the two
replacements make of each key, behind a slash; and the path is what the slashes part behind the first one,
with the replacements undone. So different paths have different pointers. The path that is reported for a cycle
has at least one key. If two cycles, in any values, are reported by the same pointer, or in the same words,
they are behind the same keys. -/
theorem cycle_pointers_lossless :
    (∀ path : List String, path ≠ [] →
      (InferenceFault.pointer path).toList = (path.flatMap fun key =>
        '/' :: Json.Pointer.replaceChar '/' ['~', '1']
          (Json.Pointer.replaceChar '~' ['~', '0'] key.toList)) ∧
      ∃ rest, (InferenceFault.pointer path).toList = '/' :: rest ∧
        (rest.splitOn '/').map (fun part => Json.Pointer.unescape (String.ofList part)) = path) ∧
    (∀ path other : List String, path ≠ [] → other ≠ [] → path ≠ other →
      InferenceFault.pointer path ≠ InferenceFault.pointer other) ∧
    ∀ (source other : Source) (path otherPath : List String), source.HasCycle path →
      other.HasCycle otherPath →
      path ≠ [] ∧
      (InferenceFault.pointer path = InferenceFault.pointer otherPath → path = otherPath) ∧
      (InferenceFault.message (.cycle path) = InferenceFault.message (.cycle otherPath) →
        path = otherPath) := by
  refine ⟨?_, ?_, ?_⟩
  · intro path h
    exact ⟨InferenceFault.toList_pointer h, InferenceFault.exists_keys_pointer h⟩
  · intro path other hpath hother hne heq
    exact hne (InferenceFault.pointer_injective hpath hother heq)
  · intro source other path otherPath hcycle hother
    have hinjective := InferenceFault.pointer_injective hcycle.ne_nil hother.ne_nil
    refine ⟨hcycle.ne_nil, hinjective, ?_⟩
    intro hmessage
    exact hinjective (InferenceFault.pointer_eq_of_message_eq hmessage)

/-- A graph whose root is its own part behind a key. -/
def loopBehind (key : String) : Source :=
  .node ⟨#[.keyed [(key, 0)]]⟩ 0

theorem cycle_pointers_lossless_escapes :
    (loopBehind "~1").HasCycle ["~1"] ∧ (loopBehind "/").HasCycle ["/"] ∧
    InferenceFault.message (.cycle ["~1"]) ≠ InferenceFault.message (.cycle ["/"]) ∧
    ∃ rest, (InferenceFault.pointer ["~1", "", "a/~0"]).toList = '/' :: rest ∧
      (rest.splitOn '/').map (fun part => Json.Pointer.unescape (String.ofList part)) =
        ["~1", "", "a/~0"] := by
  obtain ⟨hread, -, hcycles⟩ := cycle_pointers_lossless
  have htilde : (loopBehind "~1").HasCycle ["~1"] := .shape {} rfl
  have hslash : (loopBehind "/").HasCycle ["/"] := .shape {} rfl
  obtain ⟨-, -, hmessage⟩ := hcycles _ _ _ _ htilde hslash
  refine ⟨htilde, hslash, ?_, ?_⟩
  · intro heq
    exact absurd (hmessage heq) (by decide)
  · exact (hread ["~1", "", "a/~0"] (by decide)).2

end SampleTypes
