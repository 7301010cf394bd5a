import SampleTypes.Proofs.Json.Steady
import SampleTypes.Proofs.Json.Strings

/-!
# White space at the end

What is read of a text with white space at its end is read without it (`read_of_trailing`): all readers that
make up a document are steady when the byte at the end is a blank. No number and no word goes on with a
blank, a string is not closed by one, and between the parts of a value blanks are passed over.
-/

namespace SampleTypes.Json.Reader

variable {α : Type} {b : UInt8} {c c' : Cursor} (hb : Cursor.isBlank b = true)

include hb

/-! ## Numbers -/

theorem steady_passDigits : Steady b passDigits := by
  have hdigit := unblank_isDigit.apply hb
  have hrest : ∀ rest : List UInt8, (rest ++ [b]).takeWhile isDigit = rest.takeWhile isDigit ∧
      (rest ++ [b]).dropWhile isDigit = rest.dropWhile isDigit ++ [b] := by
    intro rest
    induction rest with
    | nil => simp [hdigit]
    | cons x rest ih =>
        rw [List.cons_append, List.takeWhile_cons, List.takeWhile_cons, List.dropWhile_cons,
          List.dropWhile_cons, ih.1, ih.2]
        split <;> exact ⟨rfl, rfl⟩
  intro c d a c' htrails h
  cases h
  refine ⟨(List.dropWhile_sublist _).length_le, ?_⟩
  simp only [passDigits]
  rcases htrails with heq | heq
  · rw [heq, (hrest d.rest).1, (hrest d.rest).2]
    exact ⟨_, rfl, .inl rfl⟩
  · rw [heq]
    exact ⟨_, rfl, .inr rfl⟩

/-- Digits go on until another byte comes, and a blank is one. -/
theorem steady_boundedDigits (bound n : Nat) : Steady b (boundedDigits bound n) := by
  have hdigit := unblank_isDigit.apply hb
  have hrest : ∀ (rest : List UInt8) (n count : Nat),
      digitsWithin bound n count (rest ++ [b]) =
        ((digitsWithin bound n count rest).1, (digitsWithin bound n count rest).2.1,
          (digitsWithin bound n count rest).2.2 ++ [b]) := by
    intro rest
    induction rest with
    | nil =>
        intro n count
        simp [digitsWithin, hdigit]
    | cons x rest ih =>
        intro n count
        rw [List.cons_append, digitsWithin, digitsWithin]
        split
        · exact ih _ _
        · rfl
  -- Both facts go along the bytes, as the digits are taken off a list.
  have hlength : ∀ (rest : List UInt8) (n count : Nat),
      (digitsWithin bound n count rest).2.2.length ≤ rest.length := by
    intro rest
    induction rest with
    | nil =>
        intro n count
        exact Nat.le_refl 0
    | cons x rest ih =>
        intro n count
        rw [digitsWithin]
        split
        · exact Nat.le_succ_of_le (ih _ _)
        · exact Nat.le_refl _
  intro c d a c' htrails h
  cases h
  refine ⟨hlength c.rest n 0, ?_⟩
  simp only [boundedDigits]
  rcases htrails with heq | heq
  · rw [heq, hrest]
    exact ⟨_, rfl, .inl rfl⟩
  · rw [heq]
    exact ⟨_, rfl, .inr rfl⟩

omit hb in
theorem steady_real (positive : Bool) (significand : Nat) (exponent : Int) :
    Steady b (real positive significand exponent) := by
  rw [real]
  split
  · exact steady_pure _
  · exact (fails_refuse _).drops

/-- The digits of an exponent, behind its mark and its sign; `upward` says which way they count. -/
def exponentDigits (positive : Bool) (significand : Nat) (start : Int) (upward : Bool) :
    Reader Number := do
  match ← take with
  | none => refuse .endInValue
  | some b =>
    if isDigit b then
      let (value, _) ← boundedDigits exponentLimit (digitValue b)
      if ← nextIs isDigit then
        pass
        if significand != 0 && upward then
          refuse .numberOutOfRange
        else
          let _ ← passDigits
          return signed positive 0.0
      else
        real positive significand (if upward then start + value else start - value)
    else
      refuse .invalidNumber

theorem steady_exponentDigits (positive : Bool) (significand : Nat) (start : Int) (upward : Bool) :
    Steady b (exponentDigits positive significand start upward) := by
  refine steady_take_bind (fun x => ?_) ?_
  · cases x with
    | none => exact (fails_refuse _).drops
    | some x =>
        show Steady b (if isDigit x = true then _ else _)
        split
        · refine (steady_boundedDigits hb _ _).bind fun value => ?_
          refine (steady_nextIs hb unblank_isDigit).bind fun more => ?_
          split
          · refine steady_pass.bind fun _ => ?_
            split
            · exact (fails_refuse _).drops
            · exact (steady_passDigits hb).bind fun _ => steady_pure _
          · exact steady_real _ _ _
        · exact (fails_refuse _).drops
  · show Drops b (if isDigit b = true then _ else _) _
    rw [if_neg (Bool.eq_false_iff.mp (unblank_isDigit.apply hb))]
    exact (fails_refuse _).drops

theorem steady_exponent (positive : Bool) (significand : Nat) (start : Int) :
    Steady b (exponent positive significand start) := by
  have hdigits := steady_exponentDigits hb positive significand start
  refine steady_pass.bind fun _ => steady_peek_bind (fun sign => ?_) ?_
  · show Steady b (if _ then _ else _)
    split
    · exact steady_pass.bind fun _ => hdigits _
    · exact hdigits _
  · rcases isBlank_cases hb with rfl | rfl | rfl | rfl <;> exact hdigits true

theorem steady_scaled (positive : Bool) (significand : Nat) (start : Int) :
    Steady b (scaled positive significand start) := by
  refine (steady_nextIs hb ⟨rfl, rfl, rfl, rfl⟩).bind fun marked => ?_
  split
  · exact steady_exponent hb _ _ _
  · exact steady_real _ _ _

theorem steady_fraction (positive : Bool) (significand : Nat) (start : Int) :
    Steady b (fraction positive significand start) := by
  refine steady_pass.bind fun _ => (steady_boundedDigits hb _ _).bind fun value => ?_
  refine (steady_passDigits hb).bind fun more => ?_
  split
  · refine (fails_peek_bind fun x => ?_).drops
    cases x <;> exact fails_refuseNext _
  · exact steady_scaled hb _ _ _

theorem steady_afterWhole (positive : Bool) (significand : Nat) :
    Steady b (afterWhole positive significand) := by
  refine steady_peek_bind (fun x => ?_) ?_
  · split
    · exact steady_fraction hb _ _ _
    · split
      · exact steady_exponent hb _ _ _
      · exact steady_pure _
    · exact steady_pure _
  · rcases isBlank_cases hb with rfl | rfl | rfl | rfl <;> exact steady_pure _

theorem strict_unsigned (positive : Bool) : Strict b (unsigned positive) := by
  refine strict_take_bind (fun x => ?_) ?_ (fails_refuse _)
  · split
    · exact (fails_refuse _).drops
    · split
      · refine (steady_nextIs hb unblank_isDigit).bind fun digit => ?_
        split
        · exact (fails_refuseNext _).drops
        · exact steady_afterWhole hb _ _
      · split
        · refine (steady_boundedDigits hb _ _).bind fun value => ?_
          refine (steady_passDigits hb).bind fun more => ?_
          split
          · exact steady_afterWhole hb _ _
          · refine (steady_nextIs hb ⟨rfl, rfl, rfl, rfl⟩).bind fun point => ?_
            split
            · exact steady_fraction hb _ _ _
            · exact steady_scaled hb _ _ _
        · exact (fails_refuse _).drops
  · -- A blank is no digit.
    rcases isBlank_cases hb with rfl | rfl | rfl | rfl <;> exact (fails_refuse .invalidNumber).drops

/-- A number needs a digit, and a blank is none. -/
theorem strict_number : Strict b number := by
  refine (steady_nextIs hb ⟨rfl, rfl, rfl, rfl⟩).bind_strict fun negative => ?_
  split
  · exact steady_pass.bind_strict fun _ => strict_unsigned hb false
  · exact strict_unsigned hb true

theorem steady_word {letters : List Char} (hletters : letters.all (0x20 < ·.toNat) = true) :
    Steady b (word letters) := by
  induction letters with
  | nil => exact steady_pure _
  | cons letter letters ih =>
      rw [List.all_cons, Bool.and_eq_true, decide_eq_true_eq] at hletters
      have hblank : b.toNat ≤ 0x20 := by
        rcases isBlank_cases hb with rfl | rfl | rfl | rfl <;> decide
      have hne : b.toNat ≠ letter.toNat := Nat.ne_of_lt (Nat.lt_of_le_of_lt hblank hletters.1)
      refine steady_take_bind (fun x => ?_) ?_
      · split
        · exact (fails_refuse _).drops
        · split
          · exact ih hletters.2
          · exact (fails_refuse _).drops
      · show Drops b (if (b.toNat == letter.toNat) = true then _ else _) _
        rw [if_neg (mt eq_of_beq hne)]
        exact (fails_refuse _).drops

/-! ## Strings -/

omit hb in
/-- The byte at the end is behind the first four, unless it is the fourth. -/
theorem exists_eq_of_append {x y z last : UInt8} {few rest : List UInt8}
    (h : few ++ [b] = x :: y :: z :: last :: rest) (hlast : last ≠ b) :
    ∃ rest', few = x :: y :: z :: last :: rest' ∧ rest = rest' ++ [b] := by
  match few with
  | [] => cases h
  | [_] => cases h
  | [_, _] => cases h
  | [_, _, _] =>
      cases h
      exact absurd rfl hlast
  | _ :: _ :: _ :: _ :: rest' =>
      cases h
      exact ⟨rest', rfl, rfl⟩

/-- Four digits cannot end in a blank. -/
theorem steady_hexDigits : Steady b hexDigits := by
  have hdigit : ∀ x y z, hexValue4? x y z b = none := by
    intro x y z
    have hlast : hexValue? b = none := by
      rcases isBlank_cases hb with rfl | rfl | rfl | rfl <;> rfl
    rw [hexValue4?, hlast]
    cases hexValue? x <;> cases hexValue? y <;> cases hexValue? z <;> rfl
  intro cursor other n cursor' htrails h
  rw [hexDigits] at h
  split at h
  · next x y z last rest hrest =>
      split at h
      · next hvalue =>
          -- A blank is no digit, so the byte at the end is not among the four.
          have hlast : last ≠ b := by
            rintro rfl
            rw [hdigit] at hvalue
            cases hvalue
          obtain ⟨rest', hother, hafter⟩ : ∃ rest', other.rest = x :: y :: z :: last :: rest' ∧
              (rest = rest' ++ [b] ∨ rest = rest') := by
            rcases htrails with heq | heq
            · obtain ⟨rest', hother, hafter⟩ := exists_eq_of_append (heq ▸ hrest) hlast
              exact ⟨rest', hother, .inl hafter⟩
            · exact ⟨rest, heq ▸ hrest, .inr rfl⟩
          cases h
          have hread : hexDigits other = .ok n (other.advanceBy 4) := by
            rw [hexDigits, hother]
            simp only [hvalue]
          refine ⟨?_, other.advanceBy 4, hread, ?_⟩
          · rw [rest_advanceBy, List.length_drop]
            exact Nat.sub_le _ _
          · rw [Trails, rest_advanceBy, rest_advanceBy, hrest, hother]
            exact hafter
      · cases h
  · cases h

theorem steady_surrogateMark {mark : UInt8} (hmark : Unblank (· == mark)) :
    Steady b (surrogateMark mark) := by
  refine steady_take_bind (fun x => ?_) ?_
  · split
    · exact (fails_refuse _).drops
    · split
      · exact steady_pure _
      · exact (fails_refuse _).drops
  · show Drops b (if (b == mark) = true then _ else _) _
    rw [if_neg (Bool.eq_false_iff.mp (hmark.apply hb))]
    exact (fails_refuse _).drops

theorem steady_numericEscape : Steady b numericEscape := by
  refine (steady_hexDigits hb).bind fun n => ?_
  split
  · exact (fails_refuse _).drops
  · split
    · refine (steady_surrogateMark hb ⟨rfl, rfl, rfl, rfl⟩).bind fun _ => ?_
      refine (steady_surrogateMark hb ⟨rfl, rfl, rfl, rfl⟩).bind fun _ => ?_
      refine (steady_hexDigits hb).bind fun m => ?_
      split
      · exact steady_pure _
      · exact (fails_refuse _).drops
    · exact steady_pure _

theorem steady_escape : Steady b escape := by
  refine steady_take_bind (fun x => ?_) ?_
  · split
    · exact (fails_refuse _).drops
    · split
      · exact steady_pure _
      · split
        · exact steady_numericEscape hb
        · exact (fails_refuse _).drops
  · rcases isBlank_cases hb with rfl | rfl | rfl | rfl <;> exact (fails_refuse .invalidEscape).drops

omit hb in
/-- The byte that is looked at first and passed then can be taken at once. -/
theorem stringBytes_cons (step : UInt8) (bound : Bound) (reversed : List UInt8) :
    stringBytes (step :: bound) reversed = (do
      match ← take with
      | none => refuse .endInString
      | some x =>
        if x == 0x22 then
          return reversed.reverse
        else if x == 0x5C then
          let bytes ← escape
          stringBytes bound (bytes.reverse ++ reversed)
        else if x < 0x20 then
          refuse .controlCharacter
        else
          stringBytes bound (x :: reversed) : Reader (List UInt8)) := by
  -- The loop peeks first and then passes, which is the same as to take.
  funext c
  obtain ⟨rest, line, column⟩ := c
  cases rest with
  | nil => rfl
  | cons x rest =>
      rw [stringBytes]
      change (if _ then _ else _ : Reader (List UInt8)) ⟨x :: rest, line, column⟩ =
        (if _ then _ else _ : Reader (List UInt8)) (Cursor.advance ⟨x :: rest, line, column⟩)
      split
      · rfl
      · split
        · rfl
        · split <;> rfl

omit hb in
/-- At the end of the text a string still lacks its quote. -/
theorem fails_stringBytes {bound : Bound} {reversed : List UInt8} (h : c.rest = []) {bytes : List UInt8} :
    stringBytes bound reversed c ≠ .ok bytes c' := by
  intro hok
  obtain ⟨rest, line, column⟩ := c
  cases h
  cases bound <;> cases hok

theorem steady_stringBytes : Steady b (withBound fun bound => stringBytes bound []) := by
  refine steady_loop stringBytes (fun n bound bound' ih x y reversed => ?_) []
  rw [stringBytes_cons, stringBytes_cons]
  refine take_bind_below (fun byte => ?_) (fun c a c' h hok => ?_) (fails_refuse _)
  · show DropsBelow b n (if _ then _ else _) (if _ then _ else _)
    split
    · exact (steady_pure _).below n
    · split
      · exact (steady_escape hb).bind_below fun bytes => ih _
      · split
        · exact (fails_refuse _).drops.below n
        · exact ih _
  · -- A space is passed, and then the string has no end; other blanks are refused.
    rcases isBlank_cases hb with rfl | rfl | rfl | rfl
    · exact fails_stringBytes h hok
    · exact fails_refuse .controlCharacter c a c' hok
    · exact fails_refuse .controlCharacter c a c' hok
    · exact fails_refuse .controlCharacter c a c' hok

omit hb in
theorem steady_textOf (bytes : List UInt8) : Steady b (textOf bytes) := by
  intro c d text c' htrails h
  rw [textOf] at h
  split at h
  · next hvalid =>
      cases h
      refine ⟨Nat.le_refl _, d, ?_, htrails⟩
      rw [textOf]
      simp only [hvalid]
  · cases h

/-- A blank at the end cannot stand in a string, as the quote comes last. -/
theorem steady_string : Steady b string :=
  (steady_stringBytes hb).bind steady_textOf

/-! ## Containers -/

theorem steady_nextItem (first : Bool) : Steady b (nextItem first) := by
  refine (steady_token hb).bind fun x => ?_
  split
  · exact (fails_refuseNext _).drops
  · exact steady_pure _
  · split
    · exact steady_pure _
    · split
      · refine steady_pass.bind fun _ => (steady_token hb).bind fun y => ?_
        split
        · exact (fails_refuseNext _).drops
        · exact (fails_refuseNext _).drops
        · exact steady_pure _
      · exact (fails_refuseNext _).drops

theorem steady_nextKey (first : Bool) : Steady b (nextKey first) := by
  have hkey : Steady b (do pass; some <$> string : Reader (Option String)) :=
    steady_pass.bind fun _ => (steady_string hb).map some
  refine (steady_token hb).bind fun x => ?_
  split
  · exact (fails_refuseNext _).drops
  · exact steady_pure _
  · split
    · split
      · exact hkey
      · exact (fails_refuseNext _).drops
    · split
      · refine steady_pass.bind fun _ => (steady_token hb).bind fun y => ?_
        split
        · exact (fails_refuseNext _).drops
        · exact hkey
        · exact (fails_refuseNext _).drops
        · exact (fails_refuseNext _).drops
      · exact (fails_refuseNext _).drops

theorem strict_colon : Strict b colon := by
  refine strict_token_bind hb (fails_refuseNext _) fun x => ?_
  show Moves b (if _ then _ else _)
  split
  · exact moves_pass
  · exact (fails_refuseNext _).strict.moves

theorem steady_endList : Steady b endList := by
  refine (steady_token hb).bind fun x => ?_
  split
  · exact (fails_refuseNext _).drops
  · exact steady_pass
  · refine steady_pass.bind fun _ => (steady_token hb).bind fun y => ?_
    split
    · exact (fails_refuseNext _).drops
    · exact (fails_refuseNext _).drops
  · exact (fails_refuseNext _).drops

theorem steady_endMap : Steady b endMap := by
  refine (steady_token hb).bind fun x => ?_
  split
  · exact (fails_refuseNext _).drops
  · exact steady_pass
  · exact (fails_refuseNext _).drops
  · exact (fails_refuseNext _).drops

theorem steady_items {item : Reader α} (hitem : Strict b item) : Steady b (items item) := by
  refine steady_loop (fun bound s => itemsFrom item bound s.1 s.2)
    (fun n bound bound' ih x y s => ?_) (0, [])
  refine (steady_nextItem hb _).bind_below fun more => ?_
  split
  · exact (hitem.within _).bind_below fun a => ih (s.1 + 1, a :: s.2)
  · exact (steady_pure _).below _

theorem steady_members {σ : Type} {member : σ → String → Reader σ}
    (hmember : ∀ s key, Strict b (member s key)) (s : σ) : Steady b (members member s) := by
  refine steady_loop (fun bound s => membersFrom member bound s.1 s.2)
    (fun n bound bound' ih x y s => ?_) (true, s)
  refine ((steady_nextKey hb s.1).within .unreadable).bind_below fun key? => ?_
  cases key? with
  | none => exact (steady_pure _).below _
  | some key => exact (hmember s.2 key).bind_below fun s' => ih (false, s')

theorem strict_memberValue {value : Reader α} (key : String) (hvalue : Steady b value) :
    Strict b (memberValue key value) :=
  (strict_colon hb).bind fun _ => Drops.within _ hvalue

theorem steady_entries {value : Reader α} (hvalue : Steady b value) : Steady b (entries value) :=
  steady_members hb (fun _ key => (strict_memberValue hb key hvalue).bind fun _ => steady_pure _) []

/-! ## Documents -/

theorem strict_valueWith {container : UInt8 → Reader Json} (hcontainer : ∀ x, Moves b (container x)) :
    Strict b (valueWith container) := by
  have hword : ∀ (letters : List Char) (value : Json), letters.all (0x20 < ·.toNat) = true →
      Moves b (do pass; word letters; return value) := fun letters value hletters =>
    moves_pass_bind fun _ => (steady_word hb hletters).bind fun _ => steady_pure _
  refine strict_token_bind hb (fails_refuseNext _) fun x => ?_
  split
  · exact (fails_refuseNext _).strict.moves
  · exact hword _ _ rfl
  · exact hword _ _ rfl
  · exact hword _ _ rfl
  · exact moves_pass_bind fun _ => (steady_string hb).map _
  · split
    · exact ((strict_number hb).bind fun _ => steady_pure _).moves
    · split
      · exact hcontainer _
      · exact (fails_refuseNext _).strict.moves

theorem strict_value (depth : Nat) : Strict b (value depth) := by
  induction depth with
  | zero => exact strict_valueWith hb fun _ => (fails_refuseNext _).strict.moves
  | succ depth ih =>
      refine strict_valueWith hb fun x => moves_pass_bind fun _ => ?_
      split
      · exact (steady_closing (steady_items hb ih) (steady_endList hb)).map _
      · exact (steady_closing (steady_entries hb ih.1) (steady_endMap hb)).map _

theorem steady_document : Steady b document := by
  refine Drops.bind (strict_value hb depthLimit).1 fun value => ?_
  refine Drops.bind ?_ fun _ => steady_pure value
  refine (steady_token hb).bind fun x => ?_
  split
  · exact steady_pure _
  · exact (fails_refuseNext _).drops

end SampleTypes.Json.Reader

namespace SampleTypes.Json

/-- Blanks at the end of a document make no difference. -/
theorem run_document_of_append {bytes blanks : List UInt8} {value : Json}
    (hblanks : ∀ b ∈ blanks, Cursor.isBlank b = true)
    (h : Reader.document.run (bytes ++ blanks) = .ok value) : Reader.document.run bytes = .ok value := by
  induction blanks generalizing bytes with
  | nil => rwa [List.append_nil] at h
  | cons b blanks ih =>
      rw [List.forall_mem_cons] at hblanks
      have hlast : Reader.document.run (bytes ++ [b]) = .ok value :=
        ih hblanks.2 (by rwa [List.append_assoc])
      rw [Reader.run] at hlast
      split at hlast
      · next v c hread =>
          cases hlast
          obtain ⟨-, d, hread', -⟩ := Reader.steady_document hblanks.1 _ (.start bytes) value c
            (.inl rfl) hread
          rw [Reader.run, hread']
      · cases hlast

/-- A text is read as the bytes of its UTF-8 form. -/
theorem read_eq (text : String) : read text = Reader.document.run (utf8 text.toList) := by
  rw [read, ← toUTF8_ofList, String.ofList_toList]

/-- **What is read with white space at the end** is read without it. -/
theorem read_of_trailing {text : String} {value : Json} (blank : String)
    (hblank : (utf8 blank.toList).all Cursor.isBlank = true)
    (h : read (text ++ blank) = .ok value) : read text = .ok value := by
  rw [read_eq, String.toList_append, utf8_append] at h
  rw [read_eq]
  exact run_document_of_append (List.all_eq_true.mp hblank) h

end SampleTypes.Json
