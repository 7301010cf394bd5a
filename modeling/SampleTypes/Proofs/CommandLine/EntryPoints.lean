import SampleTypes.CommandLine.Run
import SampleTypes.Filter.Standard
import SampleTypes.Proofs.Build.Sequence
import SampleTypes.Proofs.CommandLine.Arguments
import SampleTypes.Proofs.CommandLine.Delivery
import SampleTypes.Proofs.Json.Trailing
import SampleTypes.Proofs.Text.Lines

/-!
# One text, whichever way it is asked for

Declarations of several documents can be had in several ways: from a request on one file with a document on
every line, from a request on a file for each document, by builds into one store, and by builds that each
yield their store as the seed of the next one. All of them come down to `buildAll` on the options' own
store, and so to one text (`entry_points_agree`).
-/

namespace SampleTypes

namespace CommandLine

variable {engine : Filter.Engine} {options : Options} {files : Files} {path : String}
  {documents : List Json}

/-! ## Requests -/

/-- Nothing on top leaves the options as they are in the file. -/
theorem options_typesRequest {optionsFile : String} (h : Options.load optionsFile files = .ok options)
    (verbose lineByLine : Bool) (inputs : List String) :
    (typesRequest verbose lineByLine optionsFile inputs).options files = .ok options := by
  obtain ⟨⟨labels, forceOptional⟩, rootWish, ⟨typeAlias, terminators⟩, seed, delivery, collision⟩ :=
    options
  rw [Request.options, InferenceSettings.options]
  simp only [typesRequest, h]
  show Except.ok ({
    policy := ⟨labels, forceOptional || false⟩
    rootWish := none <|> rootWish
    mode := ⟨typeAlias || false, terminators || false⟩
    seed, delivery, collision } : Options) = _
  simp only [Bool.or_false]
  rfl

/-- Where nothing is selected, every document of a file stands for itself. -/
theorem selectedFrom_eq {settings : InputSettings} (hpointer : settings.pointer = none)
    (hfilter : settings.filter = none) (h : load settings files path = .ok documents) :
    selectedFrom engine settings files path = documents.map fun document => .ok (path, document) := by
  have hselect : ∀ document, select engine settings document = .ok [document] := by
    intro document
    rw [select, pointed, hpointer, hfilter]
    rfl
  rw [selectedFrom, h]
  simp only [hselect, selectedOf, List.map_singleton]
  exact List.map_eq_flatMap.symm

/-- What a request for declarations is answered with, once the documents are there. -/
theorem answer_typesRequest {optionsFile : String} {items : List (String × Json)} {final : Store}
    {roots : List String} {verbose lineByLine : Bool} {inputs : List String}
    (hload : Options.load optionsFile files = .ok options)
    (hselected : selected engine ⟨lineByLine, none, none, inputs⟩ files = items.map .ok)
    (hbuild : buildAll (items.map fun item => ⟨.document item.2, options⟩) options.start =
      .ok (roots, final)) :
    ∃ events, (typesRequest verbose lineByLine optionsFile inputs).answer engine files =
      ⟨true, final.render, "", files, events⟩ := by
  obtain ⟨events, htake⟩ := takeAll_declarations hbuild []
  refine ⟨events, ?_⟩
  rw [Request.answer, options_typesRequest hload]
  show answerTypes options (selected engine ⟨lineByLine, none, none, inputs⟩ files) .standardOutput files = _
  rw [answerTypes, hselected, htake]
  rfl

end CommandLine

/-! ## Builds -/

/-- The options with the store as what is wanted. -/
def Options.wantingStore (options : Options) : Options :=
  { options with delivery := { options.delivery with asStore := true } }

/-- Builds that each yield their store, which the next one starts from. -/
def buildChained (options : Options) : List Json → Files → Except InferenceFault Product
  | [], _ => .ok (.declarations options.start)
  | document :: documents, files => do
    let done ← build (.document document) options.wantingStore files
    match done.product with
    | .declarations store => buildChained { options with seed := some store } documents done.files
    | .text text => return .text text

def stepsOf (options : Options) (documents : List Json) : List BuildStep :=
  documents.map fun document => ⟨.document document, options⟩

variable {options : Options} {documents : List Json} {document : Json} {store final : Store}
  {roots : List String} {shape : Shape}

/-- A build yields what declaring the value's shape leaves, in whatever form it is wanted. -/
theorem build_render (h : document.inferShape options.policy = .ok shape) (delivery : Delivery)
    (files : Files) : ∃ done,
      build (.document document) { options with delivery := delivery } files = .ok done ∧
        done.product.render = (declareInto shape options options.start).store.render := by
  have hbuilt : buildInto (.document document) { options with delivery := delivery }
      { options with delivery := delivery }.start =
        .ok (declareInto shape options options.start) := by
    rw [buildInto, Source.inferShape, h]
    rfl
  rw [build, hbuilt]
  by_cases hstore : delivery.asStore = true
  · exact ⟨_, if_pos hstore, rfl⟩
  · exact ⟨_, if_neg hstore, rfl⟩

/-- A build that is asked for its store gives the store that follows its declarations. -/
theorem build_wantingStore (h : document.inferShape options.policy = .ok shape) (files : Files) :
    ∃ events, build (.document document) options.wantingStore files =
      .ok ⟨.declarations (declareInto shape options options.start).store, files, events⟩ := by
  have hbuilt : buildInto (.document document) options.wantingStore options.wantingStore.start =
      .ok (declareInto shape options options.start) := by
    rw [buildInto, Source.inferShape]
    show (document.inferShape options.policy >>= _) = _
    rw [h]
    rfl
  rw [build, hbuilt]
  exact ⟨_, rfl⟩

/-- A build into a store does not look at the store that the options start from. -/
theorem buildAll_stepsOf_seed (seed : Option Store) (documents : List Json) (store : Store) :
    buildAll (stepsOf { options with seed := seed } documents) store =
      buildAll (stepsOf options documents) store := by
  induction documents generalizing store with
  | nil => rfl
  | cons document documents ih =>
      show (do
        let built ← buildInto (.document document) options store
        let rest ← buildAll (stepsOf { options with seed := seed } documents) built.store
        return (built.root :: rest.1, rest.2)) = _
      simp only [ih]
      rfl

/-- A chain of builds leaves what builds into one store leave. -/
theorem buildChained_eq
    (h : buildAll (stepsOf options documents) options.start = .ok (roots, final)) (files : Files) :
    buildChained options documents files = .ok (.declarations final) := by
  -- For all options, as the builds that follow have another seed: the store of the first one.
  induction documents generalizing options roots with
  | nil =>
      cases h
      rfl
  | cons document documents ih =>
      obtain ⟨shape, rest, hinfers, hrest, -⟩ := buildAll_cons_eq_ok.mp h
      obtain ⟨events, hbuild⟩ := build_wantingStore hinfers files
      rw [buildChained, hbuild]
      exact ih ((buildAll_stepsOf_seed _ documents _).trans hrest)

/-! ## All entry points -/

/-- The text is read as the document, and the document is an object. -/
def ReadsObject (text : String) (document : Json) : Prop :=
  Json.read text = .ok document ∧ ∃ members, document = .object members

open CommandLine

/-- The documents of a file with a text on every line that is not blank. -/
theorem documentsOf_lines {texts : List String} {content : String}
    (hread : List.Forall₂ ReadsObject texts documents)
    (hfeed : ∀ text ∈ texts, '\n' ∉ text.toList)
    (hblank : ∀ text ∈ texts, Text.isBlank text = false)
    (h : Text.LineFile texts content.toList) :
    documentsOf true content = .ok documents := by
  have hlines := Text.forall₂_lines h hfeed hblank
  refine mapM_eq_ok.mpr ?_
  generalize (Text.lines content).filter (fun line => !Text.isBlank line) = lines at hlines
  clear hfeed hblank h
  induction hlines generalizing documents with
  | nil =>
      cases hread
      exact .nil
  | cons hline _ ih =>
      cases hread with
      | cons hfirst hrest =>
          refine .cons ?_ (ih hrest)
          rcases hline with rfl | rfl
          · exact hfirst.1
          · exact Json.read_of_trailing "\r" rfl hfirst.1

/-- The documents of files with one in each of them. -/
theorem selected_files {engine : Filter.Engine} {paths : List String} {files : Files}
    (h : List.Forall₂ (fun path document => ∃ content,
      files.readText path = .ok content ∧ Json.read content = .ok document) paths documents)
    (inputs : List String) :
    ∃ items : List (String × Json), items.map (·.2) = documents ∧
      paths.flatMap (selectedFrom engine ⟨false, none, none, inputs⟩ files) = items.map .ok := by
  induction h with
  | nil => exact ⟨[], rfl, rfl⟩
  | @cons path document paths documents hfirst _ ih =>
      obtain ⟨content, hcontent, hread⟩ := hfirst
      obtain ⟨items, hitems, hselected⟩ := ih
      have hload : load ⟨false, none, none, inputs⟩ files path = .ok [document] := by
        rw [load_document rfl hcontent, hread]
        rfl
      refine ⟨(path, document) :: items, congrArg (document :: ·) hitems, ?_⟩
      rw [List.flatMap_cons, selectedFrom_eq rfl rfl hload, hselected]
      rfl

theorem stepsOf_items {items : List (String × Json)} (h : items.map (·.2) = documents) :
    (items.map fun item => (⟨.document item.2, options⟩ : BuildStep)) =
      stepsOf options documents := by
  rw [← h, stepsOf, List.map_map]
  rfl

/-- The answer on a file with a text on every line that is not blank. -/
theorem answer_lines {texts inputs : List String} {files : Files} {optionsFile path content : String}
    (hread : List.Forall₂ ReadsObject texts documents)
    (hfeed : ∀ text ∈ texts, '\n' ∉ text.toList)
    (hblank : ∀ text ∈ texts, Text.isBlank text = false)
    (hbuild : buildAll (stepsOf options documents) options.start = .ok (roots, final))
    (hload : Options.load optionsFile files = .ok options)
    (hresolve : resolveAll files inputs = .ok [path]) (hcontent : files.readText path = .ok content)
    (hfile : Text.LineFile texts content.toList) (engine : Filter.Engine) (verbose : Bool) :
    ∃ events, (typesRequest verbose true optionsFile inputs).answer engine files =
      ⟨true, final.render, "", files, events⟩ := by
  have hpath : load ⟨true, none, none, inputs⟩ files path = .ok documents := by
    rw [load, hcontent]
    show (documentsOf true content).mapError _ = _
    rw [documentsOf_lines hread hfeed hblank hfile]
    rfl
  have hselected : selected engine ⟨true, none, none, inputs⟩ files =
      (documents.map fun document => (path, document)).map .ok := by
    rw [selected, hresolve]
    show List.flatMap _ [path] = _
    rw [List.flatMap_singleton, selectedFrom_eq rfl rfl hpath, List.map_map]
    rfl
  have hitems : (documents.map fun document => (path, document)).map (·.2) = documents := by
    rw [List.map_map]
    exact List.map_id documents
  exact answer_typesRequest hload hselected ((stepsOf_items hitems).symm ▸ hbuild)

/-- The answer on files with a document in each of them. -/
theorem answer_files {paths inputs : List String} {files : Files} {optionsFile : String}
    (hbuild : buildAll (stepsOf options documents) options.start = .ok (roots, final))
    (hload : Options.load optionsFile files = .ok options)
    (hresolve : resolveAll files inputs = .ok paths)
    (hpaths : List.Forall₂ (fun path document => ∃ content,
      files.readText path = .ok content ∧ Json.read content = .ok document) paths documents)
    (engine : Filter.Engine) (verbose : Bool) :
    ∃ events, (typesRequest verbose false optionsFile inputs).answer engine files =
      ⟨true, final.render, "", files, events⟩ := by
  obtain ⟨items, hitems, hselected⟩ := selected_files hpaths inputs
  refine answer_typesRequest hload ?_ ((stepsOf_items hitems).symm ▸ hbuild)
  rw [selected, hresolve]
  exact hselected

/-- **One text, whichever way it is asked for.** For any options and any texts on single lines that are read
as objects there is one text, which is

* printed for a file with the texts on its lines, whatever the endings and the blank lines,
* printed for a file for each document, in order (there is no filter in either request, so by any engine),
* that of the store after a build for each document into what the options start from,
* that of the last of the builds that each yield their store to the next one,

and, for a single document, that of a build in any form of delivery, on any files, and without delivery. -/
theorem entry_points_agree {texts : List String} (options : Options)
    (hread : List.Forall₂ ReadsObject texts documents)
    (hfeed : ∀ text ∈ texts, '\n' ∉ text.toList)
    (hblank : ∀ text ∈ texts, Text.isBlank text = false) :
    ∃ text : String,
      (∀ engine files optionsFile inputs path content verbose,
        Options.load optionsFile files = .ok options →
        resolveAll files inputs = .ok [path] → files.readText path = .ok content →
        Text.LineFile texts content.toList →
        ∃ events, (typesRequest verbose true optionsFile inputs).answer engine files =
          ⟨true, text, "", files, events⟩) ∧
      (∀ engine files optionsFile inputs paths verbose,
        Options.load optionsFile files = .ok options →
        resolveAll files inputs = .ok paths →
        List.Forall₂ (fun path document => ∃ content,
          files.readText path = .ok content ∧ Json.read content = .ok document) paths documents →
        ∃ events, (typesRequest verbose false optionsFile inputs).answer engine files =
          ⟨true, text, "", files, events⟩) ∧
      (∃ roots store, buildAll (stepsOf options documents) options.start = .ok (roots, store) ∧
        store.render = text) ∧
      (∀ files, ∃ product, buildChained options documents files = .ok product ∧
        product.render = text) ∧
      ∀ document, documents = [document] →
        buildText (.document document) options = .ok text ∧
        ∀ delivery files, ∃ done,
          build (.document document) { options with delivery := delivery } files = .ok done ∧
            done.product.render = text := by
  have hinfers : ∀ step ∈ stepsOf options documents, ∃ shape, step.Infers shape := by
    intro step hstep
    obtain ⟨document, hdocument, rfl⟩ := List.mem_map.mp hstep
    obtain ⟨text, -, -, members, rfl⟩ := (exists_of_forall₂ hread).2 document hdocument
    exact ⟨_, rfl⟩
  -- All of them come down to these builds, one after the other.
  obtain ⟨roots, final, hbuild⟩ := exists_buildAll hinfers options.start
  refine ⟨final.render, ?_, ?_, ⟨roots, final, hbuild, rfl⟩, fun files => ?_, ?_⟩
  · intro engine files optionsFile inputs path content verbose hload hresolve hcontent hfile
    exact answer_lines hread hfeed hblank hbuild hload hresolve hcontent hfile engine verbose
  · intro engine files optionsFile inputs paths verbose hload hresolve hpaths
    exact answer_files hbuild hload hresolve hpaths engine verbose
  · exact ⟨_, buildChained_eq hbuild files, rfl⟩
  · rintro document rfl
    obtain ⟨shape, rest, hinfer, hrest, -⟩ := buildAll_cons_eq_ok.mp hbuild
    cases hrest
    refine ⟨?_, build_render hinfer⟩
    rw [buildText, buildInto_eq hinfer]
    rfl

/-- Two documents that share a shape, together in the file `r` and apart, and options in the file `o`. -/
def sharedShapeFiles : Files :=
  ⟨[], [(["o"], .file (Json.utf8 "\x7b\x7d".toList)),
    (["r"], .file (Json.utf8
      "\x7b\"a\":true\x7d\r\n \n\x7b\"b\":\x7b\"a\":true\x7d\x7d\n".toList)),
    (["a"], .file (Json.utf8 "\x7b\"a\":true\x7d".toList)),
    (["b"], .file (Json.utf8 "\x7b\"b\":\x7b\"a\":true\x7d\x7d\n".toList))]⟩

theorem read_sharedShapeFiles :
    sharedShapeFiles.read "o" = .ok (Json.utf8 "\x7b\x7d".toList) ∧
    sharedShapeFiles.read "r" =
      .ok (Json.utf8 "\x7b\"a\":true\x7d\r\n \n\x7b\"b\":\x7b\"a\":true\x7d\x7d\n".toList) ∧
    sharedShapeFiles.read "a" = .ok (Json.utf8 "\x7b\"a\":true\x7d".toList) ∧
    sharedShapeFiles.read "b" = .ok (Json.utf8 "\x7b\"b\":\x7b\"a\":true\x7d\x7d\n".toList) := by
  simp only [Files.read_eq_ok_iff, Files.locate_eq_ok_iff]
  exact ⟨⟨_, by decide, rfl⟩, ⟨_, by decide, rfl⟩, ⟨_, by decide, rfl⟩, _, by decide, rfl⟩

theorem entry_points_agree_sharedShape : ∃ request request' text events events',
    Request.read (typesArguments true "o" ["r"]) = .ok request ∧
    Request.read (typesArguments false "o" ["a", "b"]) = .ok request' ∧
    request.answer .standard sharedShapeFiles = ⟨true, text, "", sharedShapeFiles, events⟩ ∧
    request'.answer .standard sharedShapeFiles = ⟨true, text, "", sharedShapeFiles, events'⟩ := by
  have hfirst : Json.read "\x7b\"a\":true\x7d" = .ok (.object [("a", .bool true)]) := by
    rw [Json.read_eq]
    rfl
  have hsecond : Json.read "\x7b\"b\":\x7b\"a\":true\x7d\x7d\n" =
      .ok (.object [("b", .object [("a", .bool true)])]) := by
    rw [Json.read_eq]
    rfl
  have hread : List.Forall₂ ReadsObject ["\x7b\"a\":true\x7d", "\x7b\"b\":\x7b\"a\":true\x7d\x7d"]
      [.object [("a", .bool true)], .object [("b", .object [("a", .bool true)])]] :=
    .cons ⟨hfirst, _, rfl⟩
      (.cons ⟨Json.read_of_trailing "\n" rfl hsecond, _, rfl⟩ .nil)
  have hblank : Text.BlankLine [' '] := by decide
  obtain ⟨hempty, hlines, hone, hother⟩ := read_sharedShapeFiles
  have hoptions : Options.load "o" sharedShapeFiles = .ok {} := by
    rw [Options.load, hempty]
    rfl
  have hrow : resolveAll sharedShapeFiles ["r"] = .ok ["r"] :=
    resolveAll_eq_ok.mpr ⟨[["r"]], .cons (resolve_of_no_mark (by decide)) .nil, rfl⟩
  have hpair : resolveAll sharedShapeFiles ["a", "b"] = .ok ["a", "b"] :=
    resolveAll_eq_ok.mpr ⟨[["a"], ["b"]],
      .cons (resolve_of_no_mark (by decide)) (.cons (resolve_of_no_mark (by decide)) .nil), rfl⟩
  obtain ⟨text, hrows, hfiles, -⟩ := entry_points_agree {} hread (by decide) (by decide)
  obtain ⟨events, hevents⟩ := hrows .standard sharedShapeFiles "o" ["r"] "r" _ false hoptions hrow
    (readText_of_read hlines)
    (.line _ .returnFeed (.blank hblank (.line _ .feed (.lastBlank (by decide)))))
  obtain ⟨events', hevents'⟩ := hfiles .standard sharedShapeFiles "o" ["a", "b"] ["a", "b"] false hoptions
    hpair (.cons ⟨_, readText_of_read hone, hfirst⟩ (.cons ⟨_, readText_of_read hother, hsecond⟩ .nil))
  exact ⟨_, _, text, events, events',
    read_typesArguments true (by decide) (by decide) (by decide) (by decide),
    read_typesArguments false (by decide) (by decide) (by decide) (by decide), hevents, hevents'⟩

end SampleTypes
