import SampleTypes.CommandLine.Run
import SampleTypes.Filter.Standard
import SampleTypes.Proofs.Build.Sequence
import SampleTypes.Proofs.CommandLine.Inputs
import SampleTypes.Proofs.Entries
import SampleTypes.Proofs.Files.Write
import SampleTypes.Proofs.Json.Trailing
import SampleTypes.Proofs.Selection

/-!
# All or nothing

A request is answered in steps: its options are read, its inputs are resolved, the files are read, documents
are selected and built. Any of these steps may fail, after any number of others that did not, and then nothing
is delivered (`failed_requests_deliver_nothing`). Where none of them fails, the documents are those that
`Gathers` lists, each at its place, and the text that is made of them is delivered as a whole. All of this is
said for any engine that filters are run by.
-/

namespace SampleTypes.CommandLine

variable {engine : Filter.Engine} {settings : InputSettings} {files : Files} {path : String}
  {document part : Json} {parts : List Json} {items : List (String × Json)} {policy : Policy}
  {options : Options} {request : Request}

/-! ## Selection -/

/-- The pointer leads from the document to the part; no pointer leads to the document itself. -/
def InputSettings.Points (settings : InputSettings) (document part : Json) : Prop :=
  match settings.pointer with
  | none => part = document
  | some pointer => Json.Pointer.resolve? pointer document = some part

/-- What is selected from the document: the part that the pointer leads to, or all that the filter yields for
that part. -/
def InputSettings.Yields (settings : InputSettings) (engine : Filter.Engine) (document : Json)
    (parts : List Json) : Prop :=
  ∃ part, settings.Points document part ∧
    match settings.filter with
    | none => parts = [part]
    | some filter => engine.Yields filter part parts

/-- A document is pointed into if it has a part at the pointer, or if there is no pointer. -/
theorem pointed_eq_ok : pointed settings document = .ok part ↔ settings.Points document part := by
  rw [pointed, InputSettings.Points]
  cases settings.pointer with
  | none => simp [eq_comm]
  | some pointer => cases h : Json.Pointer.resolve? pointer document <;> simp [h]

/-- Selection succeeds with the documents that the settings, the engine among them, yield. -/
theorem select_eq_ok :
    select engine settings document = .ok parts ↔ settings.Yields engine document parts := by
  rw [select, except_bind_eq_ok, InputSettings.Yields]
  refine exists_congr fun part => and_congr pointed_eq_ok ?_
  cases settings.filter with
  | none => simp [pure, Except.pure, eq_comm]
  | some filter => exact mapError_eq_ok.trans Filter.select_eq_ok

/-! ## The steps of a request -/

/-- The path is one that an input stands for. -/
def InputSettings.Reaches (settings : InputSettings) (files : Files) (path : String) : Prop :=
  ∃ input ∈ settings.inputs, ∃ paths, resolve files input = .ok paths ∧ path ∈ paths

/-- The document is in a file of such a path. -/
def InputSettings.Holds (settings : InputSettings) (files : Files) (path : String) (document : Json) : Prop :=
  settings.Reaches files path ∧ ∃ documents, load settings files path = .ok documents ∧ document ∈ documents

/-- The part is selected from such a document. -/
def InputSettings.Selects (settings : InputSettings) (engine : Filter.Engine) (files : Files) (path : String)
    (part : Json) : Prop :=
  ∃ document, settings.Holds files path document ∧
    ∃ parts, settings.Yields engine document parts ∧ part ∈ parts

/-- A step of the request fails, whatever becomes of the others. -/
inductive Request.Fails (request : Request) (engine : Filter.Engine) (files : Files) : Prop where
  | options {error : BuildError} (h : request.options files = .error error)
  | resolving {input : String} {fault : PatternError} (hinput : input ∈ request.input.inputs)
      (h : resolve files input = .error fault)
  | loading {path : String} {error : RunError} (hpath : request.input.Reaches files path)
      (h : load request.input files path = .error error)
  | selecting {path : String} {document : Json} {error : RunError}
      (hdocument : request.input.Holds files path document)
      (h : select engine request.input document = .error error)
  | building {options : Options} {path : String} {part : Json} {fault : InferenceFault}
      (hoptions : request.options files = .ok options)
      (hpart : request.input.Selects engine files path part)
      (h : part.inferShape options.policy = .error fault)

/-- The documents that are selected from a file, in order. -/
def GathersFrom (settings : InputSettings) (engine : Filter.Engine) (files : Files) (path : String)
    (items : List (String × Json)) : Prop :=
  ∃ documents selections, load settings files path = .ok documents ∧
    List.Forall₂ (settings.Yields engine) documents selections ∧
    items = selections.flatten.map fun part => (path, part)

/-- The documents of all inputs, each once: in the order of the inputs, of the paths that an input stands for, of
the documents in a file and of what is selected from a document. -/
def Gathers (settings : InputSettings) (engine : Filter.Engine) (files : Files)
    (items : List (String × Json)) : Prop :=
  ∃ paths each, List.Forall₂ (fun input paths => resolve files input = .ok paths) settings.inputs paths ∧
    List.Forall₂ (GathersFrom settings engine files) paths.flatten each ∧ items = each.flatten

/-! ## Documents in order -/

theorem readText_of_read {text : String} (h : files.read path = .ok (Json.utf8 text.toList)) :
    files.readText path = .ok text := by
  simp only [Files.readText, h, bind, Except.bind, Json.fromUTF8?_utf8]

/-- A file with a single document. -/
theorem load_document {text : String} (hwhole : settings.lineByLine = false)
    (htext : files.readText path = .ok text) :
    load settings files path =
      ((fun document => [document]) <$> Json.read text).mapError (.malformed path) := by
  rw [load, htext]
  show (documentsOf settings.lineByLine text).mapError _ = _
  rw [documentsOf, hwhole, if_neg Bool.false_ne_true]

/-- Lists that are put together from parts that are the same in pairs. -/
theorem flatMap_eq_of_forall₂ {α β γ : Type} {f : α → List γ} {g : β → List γ} {xs : List α} {ys : List β}
    (h : List.Forall₂ (fun x y => f x = g y) xs ys) : xs.flatMap f = ys.flatMap g := by
  induction h with
  | nil => rfl
  | cons hfirst _ ih => rw [List.flatMap_cons, List.flatMap_cons, hfirst, ih]

/-- The documents that are gathered from a path are selected from it, without any failure among them. -/
theorem selectedFrom_of_gathersFrom (h : GathersFrom settings engine files path items) :
    selectedFrom engine settings files path = items.map .ok := by
  obtain ⟨documents, selections, hload, hyields, rfl⟩ := h
  rw [selectedFrom, hload]
  have hparts : List.Forall₂ (fun document parts => selectedOf path (select engine settings document) =
      parts.map fun part => .ok (path, part)) documents selections := by
    refine hyields.imp fun document parts h => ?_
    rw [select_eq_ok.mpr h]
    rfl
  rw [List.map_map, List.map_flatten, ← List.flatMap_def]
  exact flatMap_eq_of_forall₂ hparts

/-- The documents that are selected are those that are listed. -/
theorem selected_of_gathers (h : Gathers settings engine files items) :
    selected engine settings files = items.map .ok := by
  obtain ⟨paths, each, hresolve, heach, rfl⟩ := h
  rw [selected, resolveAll_eq_ok.mpr ⟨paths, hresolve, rfl⟩, List.map_flatten, ← List.flatMap_def]
  exact flatMap_eq_of_forall₂ (heach.imp fun path items => selectedFrom_of_gathersFrom)

/-- Where no step on the way fails, the documents can be listed. -/
theorem exists_gathers (hresolve : ∀ input ∈ settings.inputs, ∃ paths, resolve files input = .ok paths)
    (hload : ∀ path, settings.Reaches files path → ∃ documents, load settings files path = .ok documents)
    (hselect : ∀ path document, settings.Holds files path document →
      ∃ parts, settings.Yields engine document parts) :
    ∃ items, Gathers settings engine files items ∧
      ∀ item ∈ items, settings.Selects engine files item.1 item.2 := by
  obtain ⟨paths, hpaths⟩ := exists_forall₂ hresolve
  have hreaches : ∀ path ∈ paths.flatten, settings.Reaches files path := by
    intro path hpath
    obtain ⟨some, hsome, hmem⟩ := List.mem_flatten.mp hpath
    obtain ⟨input, hinput, hinputPaths⟩ := (exists_of_forall₂ hpaths).2 some hsome
    exact ⟨input, hinput, some, hinputPaths, hmem⟩
  have heach : ∀ path ∈ paths.flatten, ∃ items, GathersFrom settings engine files path items ∧
      ∀ item ∈ items, settings.Selects engine files item.1 item.2 := by
    intro path hpath
    obtain ⟨documents, hdocuments⟩ := hload path (hreaches path hpath)
    have hholds : ∀ document ∈ documents, settings.Holds files path document :=
      fun document hmem => ⟨hreaches path hpath, documents, hdocuments, hmem⟩
    obtain ⟨selections, hselections⟩ :=
      exists_forall₂ fun document hmem => hselect path document (hholds document hmem)
    refine ⟨_, ⟨documents, selections, hdocuments, hselections, rfl⟩, fun item hitem => ?_⟩
    obtain ⟨part, hpart, rfl⟩ := List.mem_map.mp hitem
    obtain ⟨parts, hparts, hmem⟩ := List.mem_flatten.mp hpart
    obtain ⟨document, hdocument, hdocumentParts⟩ := (exists_of_forall₂ hselections).2 parts hparts
    exact ⟨document, hholds document hdocument, parts, hdocumentParts, hmem⟩
  -- Choices are made three times: a list of paths for each input, and for each path its documents and what
  -- they yield.
  obtain ⟨each, heach⟩ := exists_forall₂ heach
  refine ⟨each.flatten, ⟨paths, each, hpaths, heach.imp fun path items h => h.1, rfl⟩, fun item hitem => ?_⟩
  obtain ⟨items, hitems, hmem⟩ := List.mem_flatten.mp hitem
  obtain ⟨path, -, -, hselects⟩ := (exists_of_forall₂ heach).2 items hitems
  exact hselects item hmem

/-! ## Failing steps -/

/-- What is selected cannot be built, or is no document at all. -/
def Selected.Fails (policy : Policy) : Selected → Prop
  | .error _ => True
  | .ok (_, part) => ∃ fault, part.inferShape policy = .error fault

/-- One input that cannot be resolved is enough to have all of them refused. -/
theorem resolveAll_of_error {input : String} {fault : PatternError} (hinput : input ∈ settings.inputs)
    (h : resolve files input = .error fault) : ∃ error, resolveAll files settings.inputs = .error error := by
  cases hall : resolveAll files settings.inputs with
  | error error => exact ⟨error, rfl⟩
  | ok all =>
      obtain ⟨each, heach, -⟩ := resolveAll_eq_ok.mp hall
      obtain ⟨paths, -, hpaths⟩ := (exists_of_forall₂ heach).1 input hinput
      rw [h] at hpaths
      cases hpaths

/-- Where inputs are resolved, what is selected from the file of a path is selected. -/
theorem InputSettings.Reaches.subset {entry : Selected} (h : settings.Reaches files path)
    (hentry : entry ∈ selectedFrom engine settings files path) :
    (∃ error, .error error ∈ selected engine settings files) ∨ entry ∈ selected engine settings files := by
  obtain ⟨input, hinput, paths, hpaths, hpath⟩ := h
  rw [selected]
  cases hall : resolveAll files settings.inputs with
  | error error => exact .inl ⟨_, List.mem_singleton_self _⟩
  | ok all =>
      obtain ⟨each, heach, rfl⟩ := resolveAll_eq_ok.mp hall
      obtain ⟨others, hmem, hothers⟩ := (exists_of_forall₂ heach).1 input hinput
      rw [hpaths, Except.ok.injEq] at hothers
      subst hothers
      exact .inr (List.mem_flatMap.mpr ⟨path, List.mem_flatten.mpr ⟨paths, hmem, hpath⟩, hentry⟩)

theorem InputSettings.Holds.mem_selectedFrom {entry : Selected} (h : settings.Holds files path document)
    (hentry : entry ∈ selectedOf path (select engine settings document)) :
    entry ∈ selectedFrom engine settings files path := by
  obtain ⟨-, documents, hload, hmem⟩ := h
  rw [selectedFrom, hload]
  exact List.mem_flatMap.mpr ⟨document, hmem, hentry⟩

/-- A step that fails behind the options is found among what is selected, or hides behind another one. -/
theorem Request.Fails.exists_selected (h : request.Fails engine files)
    (hoptions : request.options files = .ok options) :
    ∃ entry ∈ selected engine request.input files, Selected.Fails options.policy entry := by
  -- What is selected from a path that an input reaches is selected, or there is an error before it.
  have found {path : String} (entry : Selected) (hpath : request.input.Reaches files path)
      (hentry : entry ∈ selectedFrom engine request.input files path)
      (hfails : Selected.Fails options.policy entry) :
      ∃ entry ∈ selected engine request.input files, Selected.Fails options.policy entry := by
    obtain ⟨error, hmem⟩ | hmem := hpath.subset hentry
    · exact ⟨_, hmem, trivial⟩
    · exact ⟨entry, hmem, hfails⟩
  cases h with
  | options h =>
      rw [hoptions] at h
      cases h
  | resolving hinput h =>
      obtain ⟨error, hall⟩ := resolveAll_of_error hinput h
      rw [selected, hall]
      exact ⟨_, List.mem_singleton_self _, trivial⟩
  | @loading path error hpath h =>
      refine found (.error error) hpath ?_ trivial
      rw [selectedFrom, h]
      exact List.mem_singleton_self _
  | @selecting path document error hdocument h =>
      refine found (.error error) hdocument.1 (hdocument.mem_selectedFrom ?_) trivial
      rw [h]
      exact List.mem_singleton_self _
  | @building own path part fault hown hpart h =>
      rw [hoptions, Except.ok.injEq] at hown
      subst hown
      obtain ⟨document, hdocument, parts, hparts, hmem⟩ := hpart
      refine found (.ok (path, part)) hdocument.1 (hdocument.mem_selectedFrom ?_) ⟨fault, h⟩
      rw [select_eq_ok.mpr hparts]
      exact List.mem_map_of_mem hmem

/-! ## Taking documents in -/

section

variable {α : Type} {take : String → Json → Taking α Unit} {entries : List Selected}
  {before after : Progress α}

/-- The others are taken in from where the first one has led. -/
theorem takeAll_cons_of_ok (h : take path part before = .ok () after) :
    takeAll take (.ok (path, part) :: entries) before = takeAll take entries after := by
  show EStateM.bind (take path part) (fun _ => takeAll take entries) before = _
  rw [EStateM.bind, h]

/-- If the first one cannot be taken in, the others are not tried. -/
theorem takeAll_cons_of_error {error : RunError} (h : take path part before = .error error after) :
    takeAll take (.ok (path, part) :: entries) before = .error error after := by
  show EStateM.bind (take path part) (fun _ => takeAll take entries) before = _
  rw [EStateM.bind, h]

/-- Where something that is selected cannot be taken in, not all of it is taken in. -/
theorem takeAll_of_fails (take : String → Json → Taking α Unit)
    (htake : ∀ path part fault, part.inferShape policy = .error fault →
      ∀ progress, ∃ error after, take path part progress = .error error after)
    (h : ∃ entry ∈ entries, Selected.Fails policy entry) (progress : Progress α) :
    ∃ error after, takeAll take entries progress = .error error after := by
  induction entries generalizing progress with
  | nil => simp at h
  | cons first entries ih =>
      cases first with
      | error error => exact ⟨error, progress, rfl⟩
      | ok item =>
          obtain ⟨path, part⟩ := item
          cases hfirst : take path part progress with
          | error error after => exact ⟨error, after, takeAll_cons_of_error hfirst⟩
          | ok u after =>
              rw [takeAll_cons_of_ok hfirst]
              refine ih ?_ after
              rw [List.exists_mem_cons_iff] at h
              refine h.resolve_left fun hfails => ?_
              -- The first one was taken, so it is not the one that fails.
              obtain ⟨fault, hfault⟩ := hfails
              obtain ⟨error, stopped, herror⟩ := htake path part fault hfault progress
              rw [hfirst] at herror
              cases herror

end

/-- A document without a shape ends the command that prints shapes. -/
theorem takeShape_of_error {fault : InferenceFault} (h : part.inferShape options.policy = .error fault)
    (progress : Progress (List Shape)) :
    takeShape options path part progress = .error (.notInferred path fault) progress := by
  rw [takeShape, h]

theorem takeDeclarations_of_error {fault : InferenceFault}
    (h : part.inferShape options.policy = .error fault) (progress : Progress Store) :
    takeDeclarations options path part progress = .error (.notInferred path fault) progress := by
  have hbuilt : buildInto (.document part) options progress.value = .error fault := by
    rw [buildInto, Source.inferShape, h]
    rfl
  rw [takeDeclarations, hbuilt]

/-- Taking shapes in is inferring them, one after the other. -/
theorem takeAll_shapes {shapes : List Shape}
    (h : List.Forall₂ (fun item shape => item.2.inferShape options.policy = .ok shape) items shapes)
    (before : List Shape) (events : List Event) :
    takeAll (takeShape options) (items.map .ok) ⟨before, events⟩ = .ok () ⟨before ++ shapes, events⟩ := by
  induction h generalizing before with
  | nil => rw [List.append_nil]; rfl
  | @cons item shape items shapes hfirst _ ih =>
      have htake : takeShape options item.1 item.2 ⟨before, events⟩ =
          .ok () ⟨before ++ [shape], events⟩ := by
        rw [takeShape, hfirst]
      rw [List.map_cons, takeAll_cons_of_ok htake, ih, List.append_assoc, List.singleton_append]

/-- Taking documents in is building from them, one after the other. -/
theorem takeAll_declarations {store final : Store} {roots : List String}
    (h : buildAll (items.map fun item => ⟨.document item.2, options⟩) store = .ok (roots, final))
    (events : List Event) : ∃ events',
      takeAll (takeDeclarations options) (items.map .ok) ⟨store, events⟩ =
        .ok () ⟨final, events'⟩ := by
  induction items generalizing store roots events with
  | nil =>
      cases h
      exact ⟨events, rfl⟩
  | cons item items ih =>
      obtain ⟨path, document⟩ := item
      obtain ⟨shape, rest, hinfers, hrest, -⟩ := buildAll_cons_eq_ok.mp h
      have hbuilt := buildInto_eq hinfers store
      have htake : takeDeclarations options path document ⟨store, events⟩ =
          .ok () ⟨(declareInto shape options store).store,
            events ++ (declareInto shape options store).events ++
              [.documentBuilt path (declareInto shape options store).root]⟩ := by
        rw [takeDeclarations, hbuilt]
      obtain ⟨events', heq⟩ := ih hrest _
      exact ⟨events', (takeAll_cons_of_ok htake).trans heq⟩

/-! ## Delivery -/

/-- The text that documents lead to: of their shapes, in order, or of the store that they are built into one
after the other. -/
def Command.Makes (command : Command) (options : Options) (items : List (String × Json)) (text : String) :
    Prop :=
  match command with
  | .shape _ => ∃ shapes,
      List.Forall₂ (fun item shape => item.2.inferShape options.policy = .ok shape) items shapes ∧
        text = shapesText shapes
  | .types .. => ∃ roots store,
      buildAll (items.map fun item => ⟨.document item.2, options⟩) options.start = .ok (roots, store) ∧
        text = store.render

/-- The path of the file that the text is for, unless it is printed. -/
def Command.target (command : Command) (options : Options) : Option String :=
  match command with
  | .shape out => out
  | .types _ _ _ _ .standardOutput => none
  | .types _ _ _ _ (.file path) => some path
  | .types _ _ _ _ .usual => some options.delivery.location

/-- The text as it is printed: shapes are ended by a line feed. -/
def Command.printed (command : Command) (text : String) : String :=
  match command with
  | .shape _ => text ++ "\n"
  | .types .. => text

/-- The text is printed and no file is touched, or it is in its file if that can be written. -/
def Answer.Delivers (answer : Answer) (command : Command) (target : Option String) (text : String)
    (files : Files) : Prop :=
  match target with
  | none => answer.success = true ∧ answer.standardOutput = command.printed text ∧ answer.files = files
  | some path => answer.standardOutput = "" ∧
      match Files.deliver path text files with
      | .ok _ after => answer.success = true ∧ answer.files = after ∧
          after.read path = .ok text.toUTF8.toList
      | .error _ after => answer.success = false ∧ answer.files = after

theorem deliverTo_delivers (command : Command) (path text report : String) (files : Files)
    (events : List Event) :
    (deliverTo path text report files events).Delivers command (some path) text files := by
  rw [Answer.Delivers, deliverTo]
  cases hdeliver : Files.deliver path text files with
  | ok u after => exact ⟨rfl, rfl, rfl, Files.read_deliver hdeliver⟩
  | error fault after => exact ⟨rfl, rfl, rfl⟩

/-- The answer fails, prints nothing and touches no file. -/
def Answer.DeliversNothing (answer : Answer) (files : Files) : Prop :=
  answer.success = false ∧ answer.standardOutput = "" ∧ answer.files = files

/-- A request with a failing step delivers nothing. -/
theorem Request.Fails.deliversNothing (h : request.Fails engine files) :
    (request.answer engine files).DeliversNothing files := by
  rw [Request.answer]
  cases hoptions : request.options files with
  | error error => exact ⟨rfl, rfl, rfl⟩
  | ok options =>
      have hfails := h.exists_selected hoptions
      dsimp only
      cases hcommand : request.command with
      | shape out =>
          obtain ⟨error, after, htake⟩ := takeAll_of_fails (takeShape options)
            (fun path part fault hfault progress => ⟨_, _, takeShape_of_error hfault progress⟩) hfails ⟨[], []⟩
          dsimp only
          rw [answerShape, htake]
          exact ⟨rfl, rfl, rfl⟩
      | types rootName typeAlias terminators preserve destination =>
          obtain ⟨error, after, htake⟩ := takeAll_of_fails (takeDeclarations options)
            (fun path part fault hfault progress => ⟨_, _, takeDeclarations_of_error hfault progress⟩) hfails
            ⟨options.start, []⟩
          dsimp only
          rw [answerTypes, htake]
          exact ⟨rfl, rfl, rfl⟩

/-- A request whose documents are all there, and can be built, delivers their text. -/
theorem answer_of_gathers (hoptions : request.options files = .ok options)
    (hgathers : Gathers request.input engine files items)
    (hshapes : ∀ item ∈ items, ∃ shape, item.2.inferShape options.policy = .ok shape) :
    ∃ text, request.command.Makes options items text ∧
      (request.answer engine files).Delivers request.command (request.command.target options) text files := by
  rw [Request.answer, hoptions]
  dsimp only
  rw [selected_of_gathers hgathers]
  cases request.command with
  | shape out =>
      obtain ⟨shapes, hforall⟩ := exists_forall₂ hshapes
      have htake := takeAll_shapes hforall [] []
      refine ⟨_, ⟨shapes, hforall, rfl⟩, ?_⟩
      dsimp only
      rw [answerShape, htake]
      cases out with
      | none => exact ⟨rfl, rfl, rfl⟩
      | some path => exact deliverTo_delivers _ path _ _ files _
  | types rootName typeAlias terminators preserve destination =>
      have hinfers : ∀ step ∈ items.map (fun item => (⟨.document item.2, options⟩ : BuildStep)),
          ∃ shape, step.Infers shape := by
        intro step hstep
        obtain ⟨item, hitem, rfl⟩ := List.mem_map.mp hstep
        exact hshapes item hitem
      -- With a shape for every document, all builds succeed one after the other.
      obtain ⟨roots, store, hbuild⟩ := exists_buildAll hinfers options.start
      obtain ⟨events, htake⟩ := takeAll_declarations hbuild []
      refine ⟨_, ⟨roots, store, hbuild, rfl⟩, ?_⟩
      dsimp only
      rw [answerTypes, htake]
      cases destination with
      | standardOutput => exact ⟨rfl, rfl, rfl⟩
      | file path => exact deliverTo_delivers _ path _ _ files _
      | usual => exact deliverTo_delivers _ options.delivery.location _ _ files _

/-- A request whose documents are all there, and can be built, has no failing step. -/
theorem not_fails_of_gathers (hoptions : request.options files = .ok options)
    (hgathers : Gathers request.input engine files items)
    (hshapes : ∀ item ∈ items, ∃ shape, item.2.inferShape options.policy = .ok shape) :
    ¬request.Fails engine files := by
  intro h
  obtain ⟨entry, hentry, hfails⟩ := h.exists_selected hoptions
  rw [selected_of_gathers hgathers] at hentry
  obtain ⟨item, hitem, rfl⟩ := List.mem_map.mp hentry
  obtain ⟨fault, hfault⟩ := hfails
  obtain ⟨shape, hshape⟩ := hshapes item hitem
  rw [hshape] at hfault
  cases hfault

/-- **All or nothing.** If any step of a request fails - reading its options, resolving an input, reading or
parsing a file, selecting from a document or building what is selected - the request fails, prints nothing and
leaves all files as they are, however many steps have gone well. If none fails, the text is delivered that all
documents lead to, in order and each of them once. Filters may be run by any engine. -/
theorem failed_requests_deliver_nothing (engine : Filter.Engine) (request : Request) (files : Files) :
    (request.Fails engine files → (request.answer engine files).DeliversNothing files) ∧
    (¬request.Fails engine files → ∃ options items text, request.options files = .ok options ∧
      Gathers request.input engine files items ∧ request.command.Makes options items text ∧
      (request.answer engine files).Delivers request.command (request.command.target options) text files) := by
  refine ⟨Request.Fails.deliversNothing, fun h => ?_⟩
  obtain ⟨options, hoptions⟩ := exists_eq_ok fun error herror => h (.options herror)
  obtain ⟨items, hgathers, hselects⟩ := exists_gathers
    (fun input hinput => exists_eq_ok fun fault hfault => h (.resolving hinput hfault))
    (fun path hpath => exists_eq_ok fun error herror => h (.loading hpath herror))
    (fun path document hdocument => by
      obtain ⟨parts, hparts⟩ := exists_eq_ok fun error herror => h (.selecting hdocument herror)
      exact ⟨parts, select_eq_ok.mp hparts⟩)
  obtain ⟨text, hmakes, hdelivers⟩ := answer_of_gathers hoptions hgathers fun item hitem =>
    exists_eq_ok fun fault hfault => h (.building hoptions (hselects item hitem) hfault)
  exact ⟨options, items, text, hoptions, hgathers, hmakes, hdelivers⟩

/-- A file with a list of two objects and one that breaks off, in the working directory. -/
def halfReadable : Files :=
  ⟨[], [(["a"], .file (Json.utf8 "[\x7b\"x\":true\x7d,\x7b\x7d]".toList)),
    (["b"], .file (Json.utf8 "\x7b".toList))]⟩

/-- The request for the declarations of all items of the lists in files. -/
def printedTypes (inputs : List String) : Request :=
  ⟨false, ⟨false, none, some ".[]", inputs⟩, ⟨none, false, {}⟩, .types none false false false .standardOutput⟩

theorem read_halfReadable :
    halfReadable.read "a" = .ok (Json.utf8 "[\x7b\"x\":true\x7d,\x7b\x7d]".toList) ∧
    halfReadable.read "b" = .ok (Json.utf8 "\x7b".toList) := by
  simp only [Files.read_eq_ok_iff, Files.locate_eq_ok_iff]
  exact ⟨⟨_, by decide, rfl⟩, _, by decide, rfl⟩

/-- The standard engine splits a list into its items. -/
theorem select_items : (printedTypes []).input.Yields .standard
    (.array [.object [("x", .bool true)], .object []]) [.object [("x", .bool true)], .object []] := by
  have hfilter : Filter.read? ".[]" = some (.path .here [(.each, false)]) := by
    rw [Filter.read?, Filter.Token.read?, ← String.length_toList]
    rfl
  have hloaded : Filter.Engine.standard.load ".[]" = .ok ⟨".[]", .path .here [(.each, false)]⟩ := by
    simp only [Filter.Engine.standard, hfilter]
  have hfirst : Json.read "\x7b\"x\":true\x7d" = .ok (.object [("x", .bool true)]) := by
    rw [Json.read_eq]
    rfl
  have hsecond : Json.read "\x7b\x7d" = .ok (.object []) := by
    rw [Json.read_eq]
    rfl
  exact ⟨_, rfl, _, _, hloaded, rfl, .cons ⟨_, rfl, hfirst⟩ (.cons ⟨_, rfl, hsecond⟩ .nil)⟩

theorem failed_requests_deliver_nothing_halfReadable :
    ((printedTypes ["a", "b"]).answer .standard halfReadable).DeliversNothing halfReadable ∧
    ∃ options items text, (printedTypes ["a"]).options halfReadable = .ok options ∧
      Gathers (printedTypes ["a"]).input .standard halfReadable items ∧
      (printedTypes ["a"]).command.Makes options items text ∧
      ((printedTypes ["a"]).answer .standard halfReadable).standardOutput = text := by
  obtain ⟨hlist, hbroken⟩ := read_halfReadable
  constructor
  · refine (failed_requests_deliver_nothing .standard (printedTypes ["a", "b"]) halfReadable).1 ?_
    obtain ⟨refusal, hrefusal⟩ : ∃ refusal, Json.read "\x7b" = .error refusal := by
      rw [Json.read_eq]
      exact ⟨_, rfl⟩
    have hload : load (printedTypes ["a", "b"]).input halfReadable "b" = .error (.malformed "b" refusal) := by
      rw [load_document rfl (readText_of_read hbroken), hrefusal]
      rfl
    exact .loading ⟨"b", by decide, ["b"], resolve_of_no_mark (by decide), List.mem_singleton_self "b"⟩ hload
  · have hload : load (printedTypes ["a"]).input halfReadable "a" =
        .ok [.array [.object [("x", .bool true)], .object []]] := by
      have hread : Json.read "[\x7b\"x\":true\x7d,\x7b\x7d]" =
          .ok (.array [.object [("x", .bool true)], .object []]) := by
        rw [Json.read_eq]
        rfl
      rw [load_document rfl (readText_of_read hlist), hread]
      rfl
    have hgathers : Gathers (printedTypes ["a"]).input .standard halfReadable
        [("a", .object [("x", .bool true)]), ("a", .object [])] :=
      ⟨[["a"]], [[("a", .object [("x", .bool true)]), ("a", .object [])]],
        .cons (resolve_of_no_mark (by decide)) .nil,
        .cons ⟨_, [[.object [("x", .bool true)], .object []]], hload, .cons select_items .nil, rfl⟩ .nil, rfl⟩
    have hshapes : ∀ item ∈ [("a", Json.object [("x", .bool true)]), ("a", .object [])],
        ∃ shape, item.2.inferShape ({} : Options).policy = .ok shape :=
      List.forall_mem_cons.mpr ⟨⟨_, rfl⟩, List.forall_mem_singleton.mpr ⟨_, rfl⟩⟩
    obtain ⟨options, items, text, hoptions, hitems, hmakes, hdelivers⟩ :=
      (failed_requests_deliver_nothing .standard (printedTypes ["a"]) halfReadable).2
        (not_fails_of_gathers rfl hgathers hshapes)
    exact ⟨options, items, text, hoptions, hitems, hmakes, hdelivers.2.1⟩

end SampleTypes.CommandLine
