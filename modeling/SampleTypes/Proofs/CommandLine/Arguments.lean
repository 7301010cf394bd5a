import SampleTypes.CommandLine.Usage

/-!
# Arguments that ask for declarations

The arguments `types --stdout`, with a file of options and some inputs, are read as the request for
declarations on the standard output (`read_typesArguments`).
-/

namespace SampleTypes.CommandLine

/-- The request for declarations on the standard output, with a file of options and nothing on top. -/
def typesRequest (verbose lineByLine : Bool) (optionsFile : String) (inputs : List String) :
    Request where
  verbose := verbose
  input := ⟨lineByLine, none, none, inputs⟩
  inference := ⟨some optionsFile, false, {}⟩
  command := .types none false false false .standardOutput

/-- The arguments that ask for it. -/
def typesArguments (lineByLine : Bool) (optionsFile : String) (inputs : List String) : List String :=
  "types" :: "--stdout" :: (if lineByLine then ["--ndjson"] else []) ++
    "--options" :: optionsFile :: "--input" :: inputs

/-- The argument is taken for a value, and not for a switch or a setting. -/
def IsValue (argument : String) : Prop :=
  argument.toList.head? ≠ some '-'

instance (argument : String) : Decidable (IsValue argument) :=
  inferInstanceAs (Decidable (_ ≠ _))

/-- A value goes to the setting that waits for it. -/
theorem scan_value {vocabulary : Vocabulary} {argument : String} (h : IsValue argument)
    (rest : List String) (given : Given) (setting : Setting) (values : List String) :
    scan vocabulary (argument :: rest) ⟨given, some (setting, values), true⟩ =
      scan vocabulary rest ⟨given, some (setting, values ++ [argument]), setting.repeats⟩ := by
  have hdashes : (argument == "--") = false := by
    refine beq_eq_false_iff_ne.mpr ?_
    rintro rfl
    exact h rfl
  have htake : Scan.take vocabulary argument ⟨given, some (setting, values), true⟩ =
      Scan.takeValue vocabulary argument ⟨given, some (setting, values), true⟩ := by
    rw [IsValue] at h
    rw [Scan.take]
    split
    · next heq =>
        rw [heq] at h
        exact absurd rfl h
    · next heq =>
        rw [heq] at h
        exact absurd rfl h
    · rfl
  show (if _ then _ else if (argument == "--") = true then _ else _) = _
  rw [htake, hdashes]
  rfl

/-- Only values are left: all of them are inputs. -/
theorem scan_inputs {vocabulary : Vocabulary} {inputs : List String}
    (hinputs : ∀ input ∈ inputs, IsValue input) {values : List String} (hne : values ++ inputs ≠ [])
    (given : Given) : scan vocabulary inputs ⟨given, some (.input, values), true⟩ =
      .ok ({ given with settings := given.settings ++ [(.input, values ++ inputs)] }, none) := by
  induction inputs generalizing values with
  | nil =>
      rw [List.append_nil] at hne
      have hempty : values.isEmpty = false := List.isEmpty_eq_false_iff.mpr hne
      show (do return ((← (do return ⟨← Given.add given .input values, none, false⟩ :
        Except UsageFault Scan)).given, none) : Except UsageFault _) = _
      rw [List.append_nil, Given.add, hempty]
      rfl
  | cons input inputs ih =>
      rw [List.forall_mem_cons] at hinputs
      rw [List.append_cons] at hne
      rw [scan_value hinputs.1, List.append_cons values input inputs]
      exact ih hinputs.2 hne

/-- What is given by those arguments. -/
def givenForTypes (lineByLine : Bool) (optionsFile : String) (inputs : List String) : Given :=
  ⟨.standardOutput :: (if lineByLine then [.lineByLine] else []),
    [(.optionsFile, [optionsFile]), (.input, inputs)]⟩

/-- What the flags have given is put together to the request they stand for. -/
theorem requestOf_givenForTypes {inputs : List String} (hsome : inputs ≠ []) (lineByLine : Bool)
    (optionsFile : String) :
    requestOf ⟨[], []⟩ "types" (givenForTypes lineByLine optionsFile inputs) =
      .ok (typesRequest false lineByLine optionsFile inputs) := by
  have hvalues : (givenForTypes lineByLine optionsFile inputs).values .input = inputs :=
    List.append_nil inputs
  have hempty : inputs.isEmpty = false := List.isEmpty_eq_false_iff.mpr hsome
  simp only [requestOf, hvalues, hempty]
  cases lineByLine
  · rfl
  · rfl

/-- **The arguments are read as the request**, if there are inputs and neither they nor the path of the
options can be taken for anything else. -/
theorem read_typesArguments {optionsFile : String} {inputs : List String} (lineByLine : Bool)
    (hfile : IsValue optionsFile) (hne : optionsFile ≠ "") (hinputs : ∀ input ∈ inputs, IsValue input)
    (hsome : inputs ≠ []) :
    Request.read (typesArguments lineByLine optionsFile inputs) =
      .ok (typesRequest false lineByLine optionsFile inputs) := by
  have hempty : optionsFile.isEmpty = false := by
    rw [← Bool.not_eq_true, String.isEmpty_iff]
    exact hne
  have hscan : scan .behindTypes ((typesArguments lineByLine optionsFile inputs).tail) .start =
      .ok (givenForTypes lineByLine optionsFile inputs, none) := by
    -- The flags come first; the one for the options waits for its value.
    have hfirst : scan .behindTypes (typesArguments lineByLine optionsFile inputs).tail .start =
          scan .behindTypes (optionsFile :: "--input" :: inputs)
            ⟨⟨(givenForTypes lineByLine optionsFile inputs).switches, []⟩,
              some (.optionsFile, []), true⟩ := by
      cases lineByLine <;> rfl
    -- The next flag ends the values of the one before it.
    have hadd : ∀ switches, scan .behindTypes ("--input" :: inputs)
        ⟨⟨switches, []⟩, some (.optionsFile, [optionsFile]), false⟩ = scan .behindTypes inputs
          ⟨⟨switches, [(.optionsFile, [optionsFile])]⟩, some (.input, []), true⟩ := by
      intro switches
      have hsettle : Scan.settle ⟨⟨switches, []⟩, some (.optionsFile, [optionsFile]), false⟩ =
          .ok ⟨⟨switches, [(.optionsFile, [optionsFile])]⟩, none, false⟩ := by
        simp only [Scan.settle, Given.add, List.any_cons, hempty]
        rfl
      show (do scan .behindTypes inputs (← (Scan.await .input _))) = _
      rw [Scan.await, hsettle]
      rfl
    rw [hfirst, scan_value hfile]
    show scan .behindTypes ("--input" :: inputs) ⟨_, some (.optionsFile, [optionsFile]), false⟩ = _
    rw [hadd, scan_inputs hinputs (by rwa [List.nil_append])]
    rfl
  show (do
    let scanned ← scan .behindTypes (typesArguments lineByLine optionsFile inputs).tail .start
    requestOf ⟨[], []⟩ "types" scanned.1) = _
  rw [hscan]
  exact requestOf_givenForTypes hsome lineByLine optionsFile

end SampleTypes.CommandLine
