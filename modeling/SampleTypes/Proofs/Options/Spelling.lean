import SampleTypes.Proofs.Json.Members
import SampleTypes.Proofs.Leftover

/-!
# Options however they are written

Options are read from an object, whatever white space and escapes it is written with. Its members may come in
any order, and so may those of the custom labels; three of them may be given their older names; and members of
other names may be added (`options_read_however_written`). No field may be given twice, under one name or two.
-/

namespace SampleTypes

open Json Json.Reader

/-! ## Saved values are taken whole -/

theorem TypeKind.measured_reader (depth : Nat) : Measured (reader depth) :=
  measured_variant names

theorem Collision.measured_reader (depth : Nat) : Measured (reader depth) :=
  measured_variant names

theorem CustomLabels.measured_fields (inner : Nat) : ∀ field ∈ fields, Measured (field.value inner) := by
  have hlabel : Measured (fields.label inner) := measured_nullable (measured_text _)
  simp only [fields, List.forall_mem_cons, List.not_mem_nil, false_implies, implies_true, and_true]
  exact ⟨hlabel.map _, hlabel.map _, hlabel.map _, hlabel.map _, hlabel.map _⟩

theorem CustomLabels.measured_reader (depth : Nat) : Measured (reader depth) :=
  measured_record _ _ fun inner _ => measured_fields inner

theorem FieldType.measured_readerWith {shape : Nat → Json.Reader Shape}
    (hshape : ∀ inner, Measured (shape inner)) (depth : Nat) : Measured (readerWith shape depth) := by
  refine Measured.map Saved.toFieldType (measured_record _ _ fun inner _ => ?_)
  simp only [savedFields, List.forall_mem_cons, List.not_mem_nil, false_implies, implies_true,
    and_true]
  exact ⟨(measured_nullable (TypeKind.measured_reader inner)).map _, (measured_text _).map _,
    measured_bool.map _, measured_bool.map _, (measured_nullable (hshape inner)).map _⟩

theorem Shape.measured_readerWithin (bound depth : Nat) : Measured (readerWithin bound depth) := by
  induction bound generalizing depth with
  | zero => exact (fails_refuseNext _).measured
  | succ bound ih =>
      exact measured_map fun inner _ => FieldType.measured_readerWith (fun innermost => ih innermost) inner

theorem Declaration.measured_reader (depth : Nat) : Measured (reader depth) := by
  refine measured_record _ _ fun inner _ => ?_
  have hshape : Measured (Shape.reader inner) := Shape.measured_readerWithin (inner + 1) inner
  simp only [fields, List.forall_mem_cons, List.not_mem_nil, false_implies, implies_true, and_true]
  exact ⟨(measured_text _).map _, hshape.map _, (measured_text _).map _⟩

theorem Store.measured_reader (depth : Nat) : Measured (reader depth) :=
  (measured_list fun inner _ => Declaration.measured_reader inner).map Store.mk

theorem Options.measured_fields (inner : Nat) : ∀ field ∈ fields, Measured (field.value inner) := by
  have hflag : Measured (fields.flag inner) := measured_bool
  have hname : Measured (fields.name inner) := measured_nullable (measured_text _)
  simp only [fields, List.forall_mem_cons, List.not_mem_nil, false_implies, implies_true, and_true]
  exact ⟨(CustomLabels.measured_reader inner).map _, hflag.map _, hname.map _, hflag.map _, hflag.map _,
    (measured_nullable (Store.measured_reader inner)).map _, (measured_nullable (measured_text _)).map _,
    hname.map _, hflag.map _, hflag.map _, hflag.map _, hflag.map _,
    (Collision.measured_reader inner).map _⟩

theorem Options.measured_reader (depth : Nat) : Measured (reader depth) :=
  measured_record _ _ fun inner _ => measured_fields inner

/-! ## Fields do not get in one another's way -/

/-- Each label has a place of its own. -/
theorem CustomLabels.independent_fields (depth : Nat) : Independent fields depth := by
  simp only [Independent, fields, List.pairwise_cons, List.forall_mem_cons, List.not_mem_nil, false_implies,
    implies_true, and_true, List.Pairwise.nil]
  and_intros <;> exact commute_of_map fun _ _ _ => rfl

/-- No two fields are put to one place, so members may come in any order. -/
theorem Options.independent_fields (depth : Nat) : Independent fields depth := by
  simp only [Independent, fields, List.pairwise_cons, List.forall_mem_cons, List.not_mem_nil, false_implies,
    implies_true, and_true, List.Pairwise.nil]
  and_intros <;> exact commute_of_map fun _ _ _ => rfl

/-! ## What is read from an object -/

section

variable {ms ms' ls ls' : List Member} {text text' v v' : List UInt8} {options : Options}
  {labels : CustomLabels} {depth : Nat}

theorem CustomLabels.gives_reader_iff (hls : ProperMembers ls) (hv : ObjectText ls v) :
    Gives (CustomLabels.reader (depth + 1)) v labels ↔ Yields CustomLabels.fields depth {} ls labels :=
  gives_record_iff _ (CustomLabels.measured_fields depth) hls hv

/-- One container is entered for the options, and another one for their labels. -/
theorem Options.read_eq_ok_iff (h : ObjectDocument ms text) :
    Options.read text = .ok options ↔ Yields Options.fields 126 {} ms options := by
  obtain ⟨hms, object, hobject, front, back, hfront, hback, rfl⟩ := h
  have hvalue := hobject.value hms
  have hvisible : visible (front ++ (object ++ back)) = object ++ back := by
    rw [visible_append hfront, hvalue.visible_append]
  have hdelimits : Delimits back := by
    rw [← List.append_nil back]
    exact hback.delimits delimits_nil
  have hgives : Gives (Options.reader depthLimit) object options ↔ Yields Options.fields 126 {} ms options :=
    gives_record_iff _ (Options.measured_fields 126) hms hobject
  rw [← hgives]
  show readSaved Options.reader (front ++ (object ++ back)) = .ok options ↔ _
  rw [readSaved_eq_ok_iff]
  constructor
  · rintro ⟨c, hok⟩
    exact ((Options.measured_reader depthLimit).gives hvalue hdelimits hvisible _ _ _ rfl hok).1
  · intro hobject
    obtain ⟨c, hok, -⟩ := (hobject _ _ hvisible).exists_ok (c := .start (front ++ (object ++ back))) rfl
    exact ⟨c, hok⟩

end

/-! ## Names -/

namespace Options

/-- The fields with an older name, which stands second. -/
def aliases : List (String × String) :=
  [("useTypeAlias", "useTypes"), ("renderStatementTerminators", "renderSemis"),
    ("returnTextOnly", "returnFileString")]

/-- The names are the same, or one field goes by both of them. -/
def SameField (name name' : String) : Prop :=
  name = name' ∨ (name, name') ∈ aliases ∨ (name', name) ∈ aliases

theorem SameField.symm {name name' : String} (h : SameField name name') : SameField name' name :=
  h.imp Eq.symm Or.symm

/-- Spellings of one field are answered by one field. -/
theorem SameField.find?_eq {name name' : String} (h : SameField name name') :
    fields.find? (·.answersTo name) = fields.find? (·.answersTo name') := by
  have halias : ∀ pair ∈ aliases,
      fields.find? (·.answersTo pair.1) = fields.find? (·.answersTo pair.2) := by
    simp only [aliases, List.forall_mem_cons, List.not_mem_nil, false_implies, implies_true, and_true]
    exact ⟨rfl, rfl, rfl⟩
  rcases h with rfl | h | h
  · rfl
  · exact halias _ h
  · exact (halias _ h).symm

/-- Both members go by names of one field, or their keys are the same bytes. -/
def SameKey (m m' : Member) : Prop :=
  m.key = m'.key ∨ ∃ name name', Spells m.key name ∧ Spells m'.key name' ∧ SameField name name'

theorem SameKey.symm {m m' : Member} (h : SameKey m m') : SameKey m' m := by
  rcases h with h | ⟨name, name', hname, hname', hsame⟩
  · exact .inl h.symm
  · exact .inr ⟨name', name, hname', hname, hsame.symm⟩

/-- Keys of one field are spelled out as spellings of that field. -/
theorem SameKey.exists_spells {m m' : Member} (h : SameKey m m') {key : String} (hkey : Spells m.key key) :
    ∃ key', Spells m'.key key' ∧ SameField key key' := by
  rcases h with h | ⟨name, name', hname, hname', hsame⟩
  · exact ⟨key, h ▸ hkey, .inl rfl⟩
  · exact ⟨name', hname', hkey.unique hname ▸ hsame⟩

/-- Custom labels have one name. -/
theorem SameKey.spells_customTypes {m m' : Member} (h : SameKey m m') (hkey : Spells m.key "customTypes") :
    Spells m'.key "customTypes" := by
  obtain ⟨key', hkey', hsame⟩ := h.exists_spells hkey
  have hname : key' = "customTypes" := by
    rcases hsame with rfl | h | h
    · rfl
    · simp [aliases] at h
    · simp [aliases] at h
  exact hname ▸ hkey'

/-! ## Documents that say the same -/

/-- Both values are objects, and their members are related. -/
def Objects (relation : List Member → List Member → Prop) (v v' : List UInt8) : Prop :=
  ∃ ls ls', ProperMembers ls ∧ ProperMembers ls' ∧ ObjectText ls v ∧ ObjectText ls' v' ∧ relation ls ls'

/-- Both members have the same value, or they are custom labels and those are related. -/
def SameValue (relation : List Member → List Member → Prop) (m m' : Member) : Prop :=
  m.value = m'.value ∨ Spells m.key "customTypes" ∧ Objects relation m.value m'.value

/-- The members come in another order, with their names spelt otherwise, and so do those of custom labels,
but for their names. -/
def Rearranged (ms ms' : List Member) : Prop :=
  ∃ middle, ms.Perm middle ∧
    List.Forall₂ (fun m m' => SameKey m m' ∧ SameValue List.Perm m m') middle ms'

/-- Members are added, and others are added to custom labels. -/
def Extended (added addedLabel : Member → Prop) (ms ms' : List Member) : Prop :=
  ∃ middle, List.Forall₂ (fun m m' => m.key = m'.key ∧ SameValue (Adds addedLabel) m m') ms middle ∧
    Adds added middle ms'

/-- Two members go by names of one field. -/
def Repeats (ms : List Member) : Prop :=
  ∃ m m' name name', [m, m'].Sublist ms ∧ Spells m.key name ∧ Spells m'.key name' ∧ SameField name name' ∧
    Known fields name

/-- Two members of the custom labels go by one name. -/
def RepeatsLabel (ms : List Member) : Prop :=
  ∃ m ∈ ms, Spells m.key "customTypes" ∧ ∃ ls, ProperMembers ls ∧ ObjectText ls m.value ∧
    ∃ l l' name, [l, l'].Sublist ls ∧ Spells l.key name ∧ Spells l'.key name ∧ Known CustomLabels.fields name

/-! ## What members mean -/

/-- The labels that are made of the one object are made of the other. -/
def Passes (relation : List Member → List Member → Prop) : Prop :=
  ∀ ls ls' labels, relation ls ls' → ProperMembers ls → ProperMembers ls' →
    Yields CustomLabels.fields 125 {} ls labels → Yields CustomLabels.fields 125 {} ls' labels

section

variable {relation : List Member → List Member → Prop} {m m' : Member} {ms ms' : List Member}
  {added addedLabel : Member → Prop} {options : Options}

theorem SameValue.flip (h : SameValue relation m m') (hkey : SameKey m m') :
    SameValue (flip relation) m' m := by
  rcases h with h | ⟨hname, ls, ls', hls, hls', hv, hv', hrelated⟩
  · exact .inl h.symm
  · exact .inr ⟨hkey.spells_customTypes hname, ls', ls, hls', hls, hv', hv, hrelated⟩

/-- One field answers to `customTypes`, and its value is read as labels. -/
theorem find?_customTypes : ∃ field, fields.find? (·.answersTo "customTypes") = some field ∧
    field.value = fun depth => (fun labels (o : Options) =>
      { o with policy := { o.policy with labels := labels } }) <$> CustomLabels.reader depth :=
  ⟨_, rfl, rfl⟩

/-- A member means what another one means that says the same. -/
theorem means_of_same (hrelation : Passes relation) (hkey : SameKey m m') (hvalue : SameValue relation m m')
    (e : Option (Effect Options)) (h : Means fields 126 m e) : Means fields 126 m' e := by
  cases h with
  | @field key field put hspells hfield hgives =>
      obtain ⟨key', hspells', hsame⟩ := hkey.exists_spells hspells
      refine .field hspells' (hsame.find?_eq ▸ hfield) ?_
      rcases hvalue with heq | ⟨hname, ls, ls', hls, hls', hv, hv', hrelated⟩
      · exact heq ▸ hgives
      · -- The labels that are put into the options are the same.
        obtain ⟨custom, hcustom, hreader⟩ := find?_customTypes
        cases hspells.unique hname
        cases hfield.symm.trans hcustom
        rw [hreader] at hgives ⊢
        obtain ⟨labels, hlabels, rfl⟩ :=
          (CustomLabels.measured_reader 126).exists_gives (hv.value hls) hgives
        have hyields := (CustomLabels.gives_reader_iff hls hv).mp hlabels
        exact ((CustomLabels.gives_reader_iff hls' hv').mpr
          (hrelation ls ls' labels hrelated hls hls' hyields)).map
  | nothing hspells hfield =>
      obtain ⟨key', hspells', hsame⟩ := hkey.exists_spells hspells
      exact .nothing hspells' (hsame.find?_eq ▸ hfield)

theorem passes_perm : Passes List.Perm :=
  fun _ _ _ hperm hls _ h => h.perm (CustomLabels.independent_fields 125) (fun m hm => (hls m hm).2) hperm

theorem passes_flip_perm : Passes (flip List.Perm) :=
  fun ls ls' labels hperm => passes_perm ls ls' labels (List.Perm.symm hperm)

/-- Labels that are unknown may be added. -/
theorem passes_adds (h : ∀ m, addedLabel m → Unknown CustomLabels.fields m) : Passes (Adds addedLabel) :=
  fun _ _ _ hadds _ _ hyields => hyields.adds (fun m hm => (h m hm).means) hadds

theorem passes_flip_adds (h : ∀ m, addedLabel m → NotKnown CustomLabels.fields m) :
    Passes (flip (Adds addedLabel)) :=
  fun _ _ _ hadds _ _ hyields => hyields.of_adds (fun m _ hm => (h m hm).eq_none) hadds

/-! ## What is made of documents that say the same -/

/-- Members of the same fields, with values that mean the same, yield the same options. -/
theorem yields_of_same (hrelation : Passes relation)
    (h : List.Forall₂ (fun m m' => SameKey m m' ∧ SameValue relation m m') ms ms')
    (hyields : Yields fields 126 {} ms options) : Yields fields 126 {} ms' options :=
  hyields.exchange (h.imp fun _ _ hsame => means_of_same hrelation hsame.1 hsame.2)

/-- Rearranged members yield what they yielded before, and nothing else. -/
theorem Rearranged.yields_iff (h : Rearranged ms ms') (hms : ProperMembers ms) :
    Yields fields 126 {} ms options ↔ Yields fields 126 {} ms' options := by
  obtain ⟨middle, hperm, hsame⟩ := h
  have hmiddle : ∀ m ∈ middle, ValueText m.value := fun m hm => (hms m (hperm.mem_iff.mpr hm)).2
  have hback : List.Forall₂ (fun m m' => SameKey m m' ∧ SameValue (flip List.Perm) m m') ms' middle :=
    hsame.flip.imp fun _ _ h => ⟨h.1.symm, h.2.flip h.1⟩
  constructor
  · intro hyields
    exact yields_of_same passes_perm hsame
      (hyields.perm (independent_fields 126) (fun m hm => (hms m hm).2) hperm)
  · intro hyields
    exact (yields_of_same passes_flip_perm hback hyields).perm (independent_fields 126) hmiddle hperm.symm

/-- What members yield is also yielded with unknown ones among them. -/
theorem Extended.yields (h : Extended added addedLabel ms ms') (hadded : ∀ m, added m → Unknown fields m)
    (hlabel : ∀ m, addedLabel m → Unknown CustomLabels.fields m) (hyields : Yields fields 126 {} ms options) :
    Yields fields 126 {} ms' options := by
  obtain ⟨middle, hsame, hadds⟩ := h
  refine (yields_of_same (passes_adds hlabel) (hsame.imp fun _ _ h => ⟨.inl h.1, h.2⟩) hyields).adds ?_ hadds
  exact fun m hm => (hadded m hm).means

/-- What is yielded with unknown members is yielded without them. -/
theorem Extended.of_yields (h : Extended added addedLabel ms ms') (hadded : ∀ m, added m → NotKnown fields m)
    (hlabel : ∀ m, addedLabel m → NotKnown CustomLabels.fields m)
    (hyields : Yields fields 126 {} ms' options) : Yields fields 126 {} ms options := by
  obtain ⟨middle, hsame, hadds⟩ := h
  have hback : List.Forall₂ (fun m m' => SameKey m m' ∧ SameValue (flip (Adds addedLabel)) m m') middle ms :=
    hsame.flip.imp fun _ _ h => ⟨.inl h.1.symm, h.2.flip (.inl h.1)⟩
  exact yields_of_same (passes_flip_adds hlabel) hback
    (hyields.of_adds (fun m _ hm => (hadded m hm).eq_none) hadds)

/-- Nothing is made of members two of which are one field. -/
theorem Repeats.not_yields (h : Repeats ms) : ¬Yields fields 126 {} ms options := by
  intro hyields
  obtain ⟨m, m', name, name', hsublist, hname, hname', hsame, hknown⟩ := h
  obtain ⟨field, hfield⟩ := hknown.exists_find?
  have hdistinct := List.pairwise_iff_forall_sublist.mp hyields.pairwise hsublist field
  exact hdistinct ⟨name, hname, hfield⟩ ⟨name', hname', hsame.find?_eq ▸ hfield⟩

/-- A label that is given twice is refused. -/
theorem RepeatsLabel.not_yields (h : RepeatsLabel ms) : ¬Yields fields 126 {} ms options := by
  rintro ⟨effects, heffects, -⟩
  obtain ⟨m, hm, hcustomTypes, ls, hls, hv, l, l', name, hsublist, hname, hname', hknown⟩ := h
  obtain ⟨e, -, hmeans⟩ := (exists_of_forall₂ heffects).1 m hm
  obtain ⟨custom, hcustom, hreader⟩ := find?_customTypes
  cases hmeans with
  | field hkey hfield hgives =>
      cases hkey.unique hcustomTypes
      cases hfield.symm.trans hcustom
      rw [hreader] at hgives
      obtain ⟨labels, hlabels, -⟩ := (CustomLabels.measured_reader 126).exists_gives (hv.value hls) hgives
      have hyields := (CustomLabels.gives_reader_iff hls hv).mp hlabels
      obtain ⟨field, hfield⟩ := hknown.exists_find?
      exact List.pairwise_iff_forall_sublist.mp hyields.pairwise hsublist field ⟨name, hname, hfield⟩
        ⟨name, hname', hfield⟩
  | nothing hkey hfield =>
      cases hkey.unique hcustomTypes
      cases hfield.symm.trans hcustom

end

end Options

section

variable {ms ms' : List Member} {text text' : List UInt8}

/-- **Options do not depend on how they are written.** A document that is an object may have its members and
those of its custom labels put in another order, and fields given their other names: it is read as the same
options, or refused as before. It is refused if a field is given twice, under one name or two. Members that are
no fields may be added here and among the labels without any effect; if their keys are no strings of characters
the document may be refused, but nothing else is read. -/
theorem options_read_however_written (h : ObjectDocument ms text) :
    (∀ ms' text', ObjectDocument ms' text' → Options.Rearranged ms ms' →
      ∀ options, Options.read text = .ok options ↔ Options.read text' = .ok options) ∧
    (Options.Repeats ms ∨ Options.RepeatsLabel ms → ∃ error, Options.read text = .error error) ∧
    (∀ ms' text', ObjectDocument ms' text' →
      Options.Extended (Unknown Options.fields) (Unknown CustomLabels.fields) ms ms' →
      ∀ options, Options.read text = .ok options ↔ Options.read text' = .ok options) ∧
    (∀ ms' text', ObjectDocument ms' text' →
      Options.Extended (NotKnown Options.fields) (NotKnown CustomLabels.fields) ms ms' →
      ∀ options, Options.read text' = .ok options → Options.read text = .ok options) := by
  refine ⟨fun ms' text' h' hsame options => ?_, fun htwice => ?_, fun ms' text' h' hmore options => ?_,
    fun ms' text' h' hmore options hread => ?_⟩
  · -- Reading is turned into what the members yield, and there the text is gone.
    rw [Options.read_eq_ok_iff h, Options.read_eq_ok_iff h']
    exact hsame.yields_iff h.1
  · cases hread : Options.read text with
    | error error => exact ⟨error, rfl⟩
    | ok options =>
        rw [Options.read_eq_ok_iff h] at hread
        rcases htwice with htwice | htwice
        · exact absurd hread htwice.not_yields
        · exact absurd hread htwice.not_yields
  · rw [Options.read_eq_ok_iff h, Options.read_eq_ok_iff h']
    constructor
    · exact hmore.yields (fun _ => id) fun _ => id
    · exact hmore.of_yields (fun _ hm => hm.notKnown) fun _ hm => hm.notKnown
  · rw [Options.read_eq_ok_iff h'] at hread
    rw [Options.read_eq_ok_iff h]
    exact hmore.of_yields (fun _ => id) (fun _ => id) hread

end

/-! ### A text and others like it -/

instance (b : UInt8) : Decidable (IsPlain b) :=
  inferInstanceAs (Decidable (_ ∧ _))

def plainMember (name : String) (value : List UInt8) : Member :=
  ⟨utf8 name.toList, value⟩

theorem spells_plainMember {name : String} {value : List UInt8}
    (h : name.toList.flatMap Json.escape = name.toList) : Spells (plainMember name value).key name := by
  intro rest
  have hreads := reads_string name rest
  rwa [h] at hreads

theorem proper_plainMember {name : String} {value : List UInt8}
    (hname : (utf8 name.toList).all (fun b => decide (IsPlain b)) = true) (hvalue : ValueText value) :
    StringBody (plainMember name value).key ∧ ValueText (plainMember name value).value :=
  ⟨stringBody_of_plain fun b hb => of_decide_eq_true (List.all_eq_true.mp hname b hb), hvalue⟩

theorem objectDocument_compact {ms : List Member} (h : ProperMembers ms) :
    ObjectDocument ms (compactObject ms) :=
  ⟨h, _, objectText_compact ms, [], [], blank_nil, blank_nil, (List.append_nil _).symm⟩

/-- A label for texts, and none for numbers. -/
def someLabels : List Member :=
  [plainMember "string" [0x22, 0x54, 0x22], plainMember "number" [0x6E, 0x75, 0x6C, 0x6C]]

def older : Member :=
  plainMember "useTypes" [0x74, 0x72, 0x75, 0x65]

def newer : Member :=
  plainMember "useTypeAlias" [0x74, 0x72, 0x75, 0x65]

def stranger : Member :=
  plainMember "theme" [0x6E, 0x75, 0x6C, 0x6C]

def olderOptions : List Member :=
  [older, plainMember "customTypes" (compactObject someLabels)]

def newerOptions : List Member :=
  [plainMember "customTypes" (compactObject someLabels.reverse), newer]

theorem proper_someLabels : ProperMembers someLabels := by
  simp only [ProperMembers, someLabels, List.forall_mem_cons, List.not_mem_nil, false_implies, implies_true,
    and_true]
  have htext : ValueText [0x22, 0x54, 0x22] := .string (.plain (by decide) .nil)
  exact ⟨proper_plainMember (by decide) htext, proper_plainMember (by decide) .nullWord⟩

theorem proper_olderOptions : ProperMembers olderOptions := by
  simp only [ProperMembers, olderOptions, List.forall_mem_cons, List.not_mem_nil, false_implies, implies_true,
    and_true]
  exact ⟨proper_plainMember (by decide) .trueWord,
    proper_plainMember (by decide) ((objectText_compact _).value proper_someLabels)⟩

theorem proper_newerOptions : ProperMembers newerOptions := by
  have hlabels : ProperMembers someLabels.reverse := fun m hm => proper_someLabels m (List.mem_reverse.mp hm)
  simp only [ProperMembers, newerOptions, List.forall_mem_cons, List.not_mem_nil, false_implies, implies_true,
    and_true]
  exact ⟨proper_plainMember (by decide) ((objectText_compact _).value hlabels),
    proper_plainMember (by decide) .trueWord⟩

theorem rearranged_olderOptions : Options.Rearranged olderOptions newerOptions := by
  have hlabels : ProperMembers someLabels.reverse := fun m hm => proper_someLabels m (List.mem_reverse.mp hm)
  refine ⟨olderOptions.reverse, (List.reverse_perm _).symm, .cons ⟨.inr ?_, .inr ?_⟩
    (.cons ⟨.inr ?_, .inl rfl⟩ .nil)⟩
  · exact ⟨"customTypes", "customTypes", spells_plainMember (by decide), spells_plainMember (by decide),
      .inl rfl⟩
  · exact ⟨spells_plainMember (by decide), someLabels, someLabels.reverse, proper_someLabels, hlabels,
      objectText_compact _, objectText_compact _, (List.reverse_perm _).symm⟩
  · exact ⟨"useTypes", "useTypeAlias", spells_plainMember (by decide), spells_plainMember (by decide),
      .inr (.inr (by decide))⟩

/-- Options of either kind are the same; together they are refused, and something else may be added. -/
theorem options_read_however_written_older :
    Options.read (compactObject olderOptions) =
        .ok { policy := { labels := { string := some "T" } }, mode := ⟨true, false⟩ } ∧
      Options.read (compactObject newerOptions) = Options.read (compactObject olderOptions) ∧
      (∃ error, Options.read (compactObject (newer :: olderOptions)) = .error error) ∧
      Options.read (compactObject (stranger :: olderOptions)) = Options.read (compactObject olderOptions) := by
  have hread : Options.read (compactObject olderOptions) =
      .ok { policy := { labels := { string := some "T" } }, mode := ⟨true, false⟩ } := rfl
  have hproper := objectDocument_compact proper_olderOptions
  obtain ⟨hrearranged, -, hextended, -⟩ := options_read_however_written hproper
  refine ⟨hread, ?_, ?_, ?_⟩
  · rw [hread]
    exact (hrearranged _ _ (objectDocument_compact proper_newerOptions) rearranged_olderOptions _).mp hread
  · have hboth : ProperMembers (newer :: olderOptions) :=
      List.forall_mem_cons.mpr ⟨proper_plainMember (by decide) .trueWord, proper_olderOptions⟩
    obtain ⟨-, hrefused, -, -⟩ := options_read_however_written (objectDocument_compact hboth)
    have htwo : [newer, older].Sublist (newer :: olderOptions) :=
      (List.singleton_sublist.mpr List.mem_cons_self).cons_cons newer
    exact hrefused (.inl ⟨newer, older, "useTypeAlias", "useTypes", htwo, spells_plainMember (by decide),
      spells_plainMember (by decide), .inr (.inl (by decide)), by decide⟩)
  · have hstranger : ProperMembers (stranger :: olderOptions) :=
      List.forall_mem_cons.mpr ⟨proper_plainMember (by decide) .nullWord, proper_olderOptions⟩
    have hunknown : Unknown Options.fields stranger := ⟨"theme", spells_plainMember (by decide), by decide⟩
    rw [hread]
    refine (hextended _ _ (objectDocument_compact hstranger) ⟨olderOptions, ?_, .add hunknown ?_⟩ _).mp hread
    · exact List.forall₂_same.mpr fun m _ => ⟨rfl, .inl rfl⟩
    · exact .keep _ (.keep _ .nil)

end SampleTypes
