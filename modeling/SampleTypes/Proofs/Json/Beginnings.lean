import SampleTypes.Proofs.Json.Lookahead

/-!
# What is read from the beginning of a text

All readers of saved values look at most one byte ahead. Numbers go on for as long as there are digits, and
everything else has an end of its own. Records, lists and maps end with a bracket and do not look behind it
(`closes_record`, `closes_list`, `closes_map`), whatever is in them and even if it is passed over.
-/

namespace SampleTypes.Json.Reader

variable {α σ : Type}

/-! ## Words and strings -/

variable {looks : Prop}

/-- The letters of a word are taken one by one, and nothing behind them is looked at. -/
theorem echoes_word (letters : List Char) : Echoes looks (word letters) := by
  induction letters with
  | nil => exact echoes_pure _
  | cons letter letters ih =>
      refine echoes_take_bind (fails_refuse _) fun x => ?_
      dsimp only
      split
      · exact ih
      · exact (fails_refuse _).echoes

theorem closes_word (letter : Char) (letters : List Char) : Closes (word (letter :: letters)) := by
  refine ⟨echoes_word _, (strides_take_bind (fails_refuse _) fun x => ?_).2⟩
  dsimp only
  split
  · exact echoes_word letters
  · exact (fails_refuse _).echoes

theorem echoes_hexDigits : Echoes looks hexDigits := by
  refine echoes_iff.mpr fun c n c' hok => ?_
  rw [hexDigits] at hok
  split at hok
  · next x y z last bytes hrest =>
      split at hok
      · next hvalue =>
          cases hok
          refine ⟨[x, y, z, last], ?_, fun d rest hd _ => ⟨d.advanceBy 4, ?_, ?_⟩⟩
          · rw [rest_advanceBy, hrest]
            rfl
          · rw [hexDigits, hd]
            simp only [List.cons_append, List.nil_append, hvalue]
          · rw [rest_advanceBy, hd]
            rfl
      · cases hok
  · cases hok

theorem echoes_surrogateMark (mark : UInt8) : Echoes looks (surrogateMark mark) := by
  refine echoes_take_bind (fails_refuse _) fun x => ?_
  dsimp only
  split
  · exact echoes_pure _
  · exact (fails_refuse _).echoes

theorem echoes_numericEscape : Echoes looks numericEscape := by
  refine echoes_hexDigits.bind fun n => ?_
  split
  · exact (fails_refuse _).echoes
  · split
    · refine (echoes_surrogateMark _).bind fun _ => (echoes_surrogateMark _).bind fun _ => ?_
      refine echoes_hexDigits.bind fun m => ?_
      split
      · exact echoes_pure _
      · exact (fails_refuse _).echoes
    · exact echoes_pure _

/-- How far an escape goes is told by its mark. -/
theorem echoes_escape : Echoes looks escape := by
  refine echoes_take_bind (fails_refuse _) fun x => ?_
  dsimp only
  split
  · exact echoes_pure _
  · split
    · exact echoes_numericEscape
    · exact (fails_refuse _).echoes

theorem echoes_stringBytes : Echoes looks (withBound fun bound => stringBytes bound []) := by
  refine echoes_loop stringBytes (fun n m bound bound' ih x y reversed => ?_) []
  refine peek_bind_turn (fails_refuse _) fun byte => ?_
  dsimp only
  split
  · exact .inr ⟨_, _, rfl, rfl, echoes_pure _ n m⟩
  · split
    · exact .inr ⟨_, _, rfl, rfl, echoes_escape.bind_below fun bytes => ih _⟩
    · split
      · exact .inl (fails_bind fun _ => fails_refuse _)
      · exact .inr ⟨_, _, rfl, rfl, ih _⟩

/-- A string has a quote at its end, at least. -/
theorem advances_stringBytes (bound : Bound) (reversed : List UInt8) :
    Advances (stringBytes bound reversed) := by
  induction bound generalizing reversed with
  | nil => exact fun c a c' hok => absurd hok (fails_refuse _ c a c')
  | cons step bound ih =>
      intro c a c' hok
      obtain ⟨x, middle, hpeek, hok⟩ := bind_eq_ok.mp hok
      cases hpeek
      cases hrest : c.rest with
      | nil =>
          rw [hrest] at hok
          cases hok
      | cons b bytes =>
          -- Each of the branches passes this byte; what comes after it only takes more.
          have hpass : c.advance.rest.length < (b :: bytes).length :=
            hrest ▸ length_advance_lt (hrest ▸ List.cons_ne_nil b bytes)
          rw [hrest, List.head?_cons] at hok
          dsimp only at hok
          split at hok
          · cases hok
            exact hpass
          · split at hok
            · change (escape >>= _) c.advance = _ at hok
              obtain ⟨escaped, after, hescape, hok⟩ := bind_eq_ok.mp hok
              have hpeeks : Peeks escape := echoes_escape
              have hle := hpeeks.length_le hescape
              exact Nat.lt_trans (ih _ _ _ _ hok) (Nat.lt_of_le_of_lt hle hpass)
            · split at hok
              · cases hok
              · exact Nat.lt_trans (ih _ c.advance _ _ hok) hpass

theorem echoes_textOf (bytes : List UInt8) : Echoes looks (textOf bytes) := by
  refine echoes_of_rest_eq fun c text c' hok => ?_
  rw [textOf] at hok
  split at hok
  · next hvalid =>
      cases hok
      refine ⟨rfl, fun d => ⟨d, ?_, rfl⟩⟩
      rw [textOf]
      simp only [hvalid]
  · cases hok

/-- A string takes its quote, so it does not look behind itself. -/
theorem closes_string : Closes string :=
  Closes.bind ⟨echoes_stringBytes, fun c => advances_stringBytes _ [] c⟩ echoes_textOf

theorem peeks_string : Peeks string :=
  closes_string.peeks

/-! ## Between the parts of containers -/

/-- For the next item one byte is looked at: what begins it, or the bracket that ends the list. -/
theorem peeks_nextItem (first : Bool) : Peeks (nextItem first) := by
  refine peeks_token.bind fun x => ?_
  split
  · exact (fails_refuseNext _).echoes
  · exact echoes_pure _
  · split
    · exact echoes_pure _
    · split
      · refine peeks_pass.bind fun _ => peeks_token.bind fun y => ?_
        split
        · exact (fails_refuseNext _).echoes
        · exact (fails_refuseNext _).echoes
        · exact echoes_pure _
      · exact (fails_refuseNext _).echoes

theorem peeks_nextKey (first : Bool) : Peeks (nextKey first) := by
  have hkey : Peeks (do pass; some <$> string : Reader (Option String)) :=
    peeks_pass.bind fun _ => peeks_string.map some
  refine peeks_token.bind fun x => ?_
  split
  · exact (fails_refuseNext _).echoes
  · exact echoes_pure _
  · split
    · split
      · exact hkey
      · exact (fails_refuseNext _).echoes
    · split
      · refine peeks_pass.bind fun _ => peeks_token.bind fun y => ?_
        split
        · exact (fails_refuseNext _).echoes
        · exact hkey
        · exact (fails_refuseNext _).echoes
        · exact (fails_refuseNext _).echoes
      · exact (fails_refuseNext _).echoes

theorem closes_colon : Closes colon := by
  refine closes_token_bind 0x3A (fun _ => rfl) fun x hx => ?_
  split
  · exact fails_refuseNext _
  · next b =>
      rw [if_neg]
      · exact fails_refuseNext _
      · exact fun hb => hx (congrArg some (eq_of_beq hb))

theorem closes_endList : Closes endList := by
  refine closes_token_bind 0x5D (fun _ => rfl) fun x hx => ?_
  split
  · exact fails_refuseNext _
  · exact absurd rfl hx
  · refine fails_bind fun _ => fails_bind fun y => ?_
    split <;> exact fails_refuseNext _
  · exact fails_refuseNext _

theorem closes_endMap : Closes endMap := by
  refine closes_token_bind 0x7D (fun _ => rfl) fun x hx => ?_
  split
  · exact fails_refuseNext _
  · exact absurd rfl hx
  · exact fails_refuseNext _
  · exact fails_refuseNext _

theorem peeks_items {item : Reader α} (hitem : Closes item) : Peeks (items item) := by
  refine echoes_loop (fun bound s => itemsFrom item bound s.1 s.2)
    (fun n m bound bound' ih x y s => ?_) (0, [])
  have hitem' : Closes (within (.item s.1) item) := (alike_within _ item).closes hitem
  refine (peeks_nextItem _).bind_below fun more => ?_
  split
  · exact hitem'.strides.bind_turn fun a => ih (s.1 + 1, a :: s.2)
  · exact echoes_pure _ _ _

theorem peeks_members {member : σ → String → Reader σ}
    (hmember : ∀ s key, Strides (member s key)) (s : σ) : Peeks (members member s) := by
  refine echoes_loop (fun bound s => membersFrom member bound s.1 s.2)
    (fun n m bound bound' ih x y s => ?_) (true, s)
  refine ((alike_within .unreadable _).echoes (peeks_nextKey s.1)).bind_below fun key? => ?_
  cases key? with
  | none => exact echoes_pure _ _ _
  | some key => exact (hmember s.2 key).bind_turn fun s' => ih (false, s')

/-- A member has its colon, whatever comes behind it. -/
theorem strides_memberValue {value : Reader α} (key : String) (hvalue : Peeks value) :
    Strides (memberValue key value) :=
  closes_colon.strides.bind fun _ => (alike_within _ value).echoes hvalue

theorem peeks_entries {value : Reader α} (hvalue : Peeks value) : Peeks (entries value) :=
  peeks_members (fun _ key => (strides_memberValue key hvalue).bind fun _ => echoes_pure _) []

/-! ## Values that are passed over -/

theorem peeks_passString : Peeks (withBound passString) := by
  refine echoes_loop (fun bound (_ : Unit) => passString bound) (fun n m bound bound' ih x y _ => ?_) ()
  refine peek_bind_turn (fails_refuse _) fun byte => ?_
  dsimp only
  split
  · exact .inr ⟨fun _ => pure (), fun _ => pure (), rfl, rfl, echoes_pure _ n m⟩
  · split
    · refine .inr ⟨_, _, rfl, rfl, peeks_take.bind_below fun mark? => ?_⟩
      cases mark? with
      | none => exact (fails_refuse _).echoesBelow
      | some mark =>
          dsimp only
          split
          · exact echoes_hexDigits.bind_below fun _ => ih ()
          · split
            · exact ih ()
            · exact (fails_refuse _).echoesBelow
    · split
      · exact .inl (fails_refuse _)
      · exact .inr ⟨_, _, rfl, rfl, ih ()⟩

/-- The digits of an exponent, behind its mark and its sign. -/
def passExponentDigits : Reader Unit := do
  match ← take with
  | some b => if isDigit b then discard passDigits else refuse .invalidNumber
  | none => refuse .invalidNumber

theorem peeks_passExponentDigits : Peeks passExponentDigits := by
  refine peeks_take.bind fun x => ?_
  split
  · split
    · exact peeks_passDigits.map _
    · exact (fails_refuse _).echoes
  · exact (fails_refuse _).echoes

theorem peeks_passExponent : Peeks passExponent := by
  refine peeks_pass.bind fun _ => (peeks_nextIs _).bind fun signed => ?_
  split
  · exact peeks_pass.bind fun _ => peeks_passExponentDigits
  · exact peeks_passExponentDigits

theorem peeks_passFraction : Peeks passFraction := by
  have hexponent : Peeks (do if ← nextIs isExponentMark then passExponent) := by
    refine (peeks_nextIs _).bind fun marked => ?_
    split
    · exact peeks_passExponent
    · exact echoes_pure _
  refine peeks_pass.bind fun _ => peeks_passDigits.bind fun count => ?_
  split
  · exact (fails_refuseNext _).bind.echoes
  · exact hexponent

/-- What may follow the whole part of a number. -/
theorem peeks_afterDigits : Peeks (do
    if ← nextIs (· == 0x2E) then passFraction
    else if ← nextIs isExponentMark then passExponent) := by
  refine (peeks_nextIs _).bind fun point => ?_
  split
  · exact peeks_passFraction
  · refine (peeks_nextIs _).bind fun marked => ?_
    split
    · exact peeks_passExponent
    · exact echoes_pure _

/-- A number ends where no digit follows, so one byte behind it is looked at. -/
theorem strides_passNumber : Strides passNumber := by
  refine strides_take_bind (fails_refuse _).bind fun x => ?_
  dsimp only
  split
  · refine (peeks_nextIs _).bind fun digit => ?_
    split
    · exact (fails_refuseNext _).bind.echoes
    · exact peeks_afterDigits
  · split
    · exact (peeks_passDigits.map _).bind fun _ => peeks_afterDigits
    · exact (fails_refuse _).bind.echoes

theorem peeks_passKey : Peeks passKey := by
  refine peeks_token.bind fun x => ?_
  split
  · exact (fails_refuseNext _).echoes
  · split
    · exact peeks_pass.bind fun _ => peeks_passString.bind fun _ => closes_colon.peeks
    · exact (fails_refuseNext _).echoes

theorem peeks_passBefore (frame : Frame) : Peeks (passBefore frame) := by
  cases frame with
  | list => exact echoes_pure _
  | map => exact peeks_passKey

theorem peeks_passOpening (frame : Frame) : Peeks (passOpening frame) := by
  refine peeks_token.bind fun x => ?_
  split
  · exact (fails_refuseNext _).echoes
  · split
    · exact peeks_pass.bind fun _ => echoes_pure _
    · exact (peeks_passBefore frame).bind fun _ => echoes_pure _

theorem strides_passSeparator (frame : Frame) : Strides (passSeparator frame) := by
  refine strides_token_bind (fails_refuseNext _) fun x => ?_
  dsimp only
  split
  · exact proceeds_pass_bind (echoes_pure _)
  · split
    · exact proceeds_pass_bind ((peeks_passBefore frame).bind fun _ => echoes_pure _)
    · exact (fails_refuseNext _).proceeds

theorem strides_passLeaf : Strides passLeaf := by
  have hword : ∀ letters, Proceeds (do pass; word letters; return none : Reader (Option Frame)) :=
    fun letters => proceeds_pass_bind ((echoes_word letters).bind fun _ => echoes_pure _)
  have hnumber : Strides (do passNumber; return none : Reader (Option Frame)) :=
    strides_passNumber.bind fun _ => echoes_pure _
  refine strides_token_bind (fails_refuseNext _) fun x => ?_
  split
  · exact (fails_refuseNext _).proceeds
  · exact hword _
  · exact hword _
  · exact hword _
  · exact proceeds_pass_bind hnumber.1
  · exact proceeds_pass_bind (peeks_passString.bind fun _ => echoes_pure _)
  · exact proceeds_pass_bind (echoes_pure _)
  · exact proceeds_pass_bind (echoes_pure _)
  · split
    · exact hnumber.proceeds
    · exact (fails_refuseNext _).proceeds

/-- A value is passed over with its parts, however they are nested. -/
theorem peeks_passValue : Peeks passValue := by
  refine echoes_loop (fun bound (s : List Frame × Bool) => passFrom bound s.1 s.2)
    (fun n m bound bound' ih x y s => ?_) ([], true)
  obtain ⟨frames, ahead⟩ := s
  match frames, ahead with
  | frames, true =>
      refine strides_passLeaf.bind_turn fun frame? => ?_
      cases frame? with
      | none => exact ih (frames, false)
      | some frame =>
          refine (peeks_passOpening frame).bind_below fun part => ?_
          split
          · exact ih (frame :: frames, true)
          · exact ih (frames, false)
  | [], false => exact echoes_pure _ _ _
  | frame :: frames, false =>
      refine (strides_passSeparator frame).bind_turn fun part => ?_
      split
      · exact ih (frame :: frames, true)
      · exact ih (frames, false)

/-! ## Values without parts -/

/-- A value of the wrong type is refused, whatever it is. -/
theorem fails_wrongType (expected : String) : Fails (wrongType expected : Reader α) := by
  refine Fails.placed (fails_bind fun x => ?_)
  split
  · exact fails_bind fun _ => fails_bind fun _ => fails_refuseLater _
  · exact fails_bind fun _ => fails_bind fun _ => fails_refuseLater _
  · exact fails_bind fun _ => fails_bind fun _ => fails_refuseLater _
  · exact fails_bind fun _ => fails_bind fun _ => fails_refuseLater _
  · exact fails_refuseLater _
  · exact fails_refuseLater _
  · split
    · exact fails_bind fun _ => fails_refuseLater _
    · exact fails_refuseNext _
  · exact fails_refuseNext _

theorem closes_bool : Closes bool := by
  refine peeks_token.bind_closes fun x => ?_
  split
  · exact (fails_refuseNext _).closes
  · exact peeks_pass.bind_closes fun _ => (closes_word _ _).bind fun _ => echoes_pure _
  · exact peeks_pass.bind_closes fun _ => (closes_word _ _).bind fun _ => echoes_pure _
  · exact (fails_wrongType _).closes

theorem closes_text (expected : String) : Closes (text expected) := by
  refine peeks_token.bind_closes fun x => ?_
  split
  · exact (fails_refuseNext _).closes
  · exact peeks_pass.bind_closes fun _ => closes_string
  · exact (fails_wrongType _).closes

theorem closes_unit : Closes unit := by
  refine peeks_token.bind_closes fun x => ?_
  split
  · exact (fails_refuseNext _).closes
  · exact peeks_pass.bind_closes fun _ => closes_word _ _
  · exact (fails_wrongType _).closes

theorem closes_nullable {reader : Reader α} (h : Closes reader) : Closes (nullable reader) := by
  refine peeks_token.bind_closes fun x => ?_
  split
  · exact peeks_pass.bind_closes fun _ => (closes_word _ _).bind fun _ => echoes_pure _
  · exact h.map some

theorem echoes_variantNamed (variants : List (String × α)) (name : String) :
    Echoes looks (variantNamed variants name) := by
  rw [variantNamed]
  split
  · exact echoes_pure _
  · exact (fails_refuseLater _).echoes

/-! ## Containers -/

variable {depth : Nat}

/-- What lies between the brackets is followed by the closing one, and what follows that is not looked at. -/
theorem closes_enter {body : Nat → Reader α} (h : ∀ inner, depth = inner + 1 → Closes (body inner)) :
    Closes (placed (enter depth body)) := by
  refine (alike_placed _).closes ?_
  cases depth with
  | zero => exact (fails_refuseNext _).closes
  | succ inner => exact peeks_pass.bind_closes fun _ => h inner rfl

theorem closes_list {item : Nat → Reader α} (h : ∀ inner, depth = inner + 1 → Closes (item inner)) :
    Closes (list depth item) := by
  refine peeks_token.bind_closes fun x => ?_
  split
  · exact (fails_refuseNext _).closes
  · exact closes_enter fun inner hinner => closes_closing (peeks_items (h inner hinner)) closes_endList
  · exact (fails_wrongType _).closes

theorem closes_map {value : Nat → Reader α} (h : ∀ inner, depth = inner + 1 → Peeks (value inner)) :
    Closes (map depth value) := by
  refine peeks_token.bind_closes fun x => ?_
  split
  · exact (fails_refuseNext _).closes
  · exact closes_enter fun inner hinner => closes_closing (peeks_entries (h inner hinner)) closes_endMap
  · exact (fails_wrongType _).closes

/-- A variant is its name, or an object of which the name is the only key. -/
theorem closes_variant (variants : List (String × α)) : Closes (variant depth variants) := by
  refine peeks_token.bind_closes fun x => ?_
  split
  · exact (fails_refuseNext _).closes
  · exact (alike_placed _).closes (peeks_pass.bind_closes fun _ =>
      closes_string.bind fun name => echoes_variantNamed variants name)
  · cases depth with
    | zero => exact (fails_refuseNext _).closes
    | succ inner =>
        have hname : Peeks (placed string) := ((alike_placed _).closes closes_string).peeks
        have hvariant : ∀ name, Peeks (placed (variantNamed variants name)) :=
          fun name => (alike_placed _).echoes (echoes_variantNamed variants name)
        refine peeks_pass.bind_closes fun _ => peeks_token.bind_closes fun y => ?_
        split
        · refine peeks_pass.bind_closes fun _ => hname.bind_closes fun name => ?_
          refine (hvariant name).bind_closes fun a => ?_
          refine closes_colon.peeks.bind_closes fun _ => ?_
          refine ((alike_within _ _).closes closes_unit).peeks.bind_closes fun _ => ?_
          refine closes_token_bind 0x7D (fun _ => rfl) fun z hz => ?_
          split
          · exact absurd rfl hz
          · exact (fails_refuse _).bind
          · exact (fails_refuse _).bind
        · exact (fails_refuseNext _).bind.closes
        · exact (fails_refuseNext _).bind.closes
        · exact (fails_refuseNext _).bind.closes
  · exact (fails_refuseNext _).closes

/-! ## Records -/

variable {fields : List (Field σ)}

/-- A member is a field or is passed over, and has its colon in both cases. -/
theorem strides_fieldMember (h : ∀ field ∈ fields, Peeks (field.value depth)) (draft : Draft σ)
    (key : String) : Strides (fieldMember fields depth draft key) := by
  rw [fieldMember]
  split
  · next field hfield =>
      have hvalue := h field (List.mem_of_find?_eq_some hfield)
      split
      · exact (fails_refuseLater _).closes.strides
      · exact (strides_memberValue key hvalue).bind fun _ => echoes_pure _
  · exact (strides_memberValue key peeks_passValue).bind fun _ => echoes_pure _

theorem peeks_recordFromMembers (h : ∀ field ∈ fields, Peeks (field.value depth)) (blank : σ) :
    Peeks (recordFromMembers fields depth blank) := by
  refine (peeks_members (strides_fieldMember h) _).bind fun draft => ?_
  split
  · exact (fails_refuseLater _).echoes
  · exact echoes_pure _

theorem peeks_recordFromItems (expected : String) (h : ∀ field ∈ fields, Peeks (field.value depth))
    (index : Nat) (record : σ) : Peeks (recordFromItems expected depth fields index record) := by
  induction fields generalizing index record with
  | nil => exact echoes_pure _
  | cons field fields ih =>
      rw [List.forall_mem_cons] at h
      refine (peeks_nextItem _).bind fun more => ?_
      split
      · exact ((alike_within _ _).echoes h.1).bind fun put => ih h.2 _ _
      · split
        · exact (fails_refuseLater _).echoes
        · exact echoes_pure _

/-- A record is closed by its bracket, even where its fields look ahead. -/
theorem closes_record (name : String) (blank : σ)
    (h : ∀ inner, depth = inner + 1 → ∀ field ∈ fields, Peeks (field.value inner)) :
    Closes (record name fields blank depth) := by
  refine peeks_token.bind_closes fun x => ?_
  split
  · exact (fails_refuseNext _).closes
  · exact closes_enter fun inner hinner =>
      closes_closing (peeks_recordFromItems _ (h inner hinner) 0 blank) closes_endList
  · exact closes_enter fun inner hinner =>
      closes_closing (peeks_recordFromMembers (h inner hinner) blank) closes_endMap
  · exact (fails_wrongType _).closes

end SampleTypes.Json.Reader
