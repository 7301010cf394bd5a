import SampleTypes.Proofs.Json.Beginnings
import SampleTypes.Proofs.Json.Grammar
import SampleTypes.Proofs.Json.Restoring
import SampleTypes.Proofs.Outcomes

/-!
# Values that are passed over

A value that nobody asks for is passed over up to its end, whatever it is and however deep
(`reads_passValue`). The loop keeps the containers that are open on a stack; that a value is passed within
them leaves the stack as it was (`PassedOver`), which carries the induction on the value. Every turn of the
loop takes a byte at least.
-/

namespace SampleTypes.Json

variable {rest : List UInt8}

/-- What may follow a value does not go on with it. -/
theorem Delimits.any_eq_false (h : Delimits rest) {condition : UInt8 → Bool}
    (hcondition : [0x20, 0x0A, 0x09, 0x0D, 0x2C, 0x5D, 0x7D].any condition = false) :
    rest.head?.any condition = false := by
  cases hhead : rest.head? with
  | none => rfl
  | some b =>
      refine Bool.eq_false_iff.mpr (List.any_eq_false.mp hcondition b ?_)
      rcases h b hhead with hblank | rfl | rfl | rfl
      · rcases Reader.isBlank_cases hblank with rfl | rfl | rfl | rfl <;> decide
      all_goals decide

namespace Reader

variable {α : Type} {before after bytes text : List UInt8} {bound : Bound}

/-! ## The next byte -/

theorem reads_token_visible {b : UInt8} (h : visible before = b :: rest) :
    Reads token before (some b) (b :: rest) := by
  have hrest : ∀ line column, (Cursor.toToken ⟨before, line, column⟩).rest = b :: rest :=
    fun line column => (rest_toToken _).trans h
  refine reads_of_rest (fun line column => ?_) hrest
  show EStateM.Result.ok (Cursor.toToken _).rest.head? _ = _
  rw [hrest, List.head?_cons]

theorem reads_nextIs (condition : UInt8 → Bool) (before : List UInt8) :
    Reads (nextIs condition) before (before.head?.any condition) before :=
  (reads_peek before).bind (reads_pure _ _)

/-! ## Strings -/

theorem isSome_shortEscape? : ∀ mark ∈ shortMarks,
    isNumericMark mark = false ∧ (shortEscape? mark).isSome = true := by
  simp only [shortMarks, List.forall_mem_cons, List.not_mem_nil, false_implies, implies_true, and_true]
  and_intros <;> rfl

theorem exists_hexValue? {b : UInt8} (h : IsHex b) : ∃ n, hexValue? b = some n := by
  rw [hexValue?]
  rcases h with hdigit | hupper | hlower
  · exact ⟨_, if_pos (by rw [isDigit]; simpa using hdigit)⟩
  · split
    · exact ⟨_, rfl⟩
    · split
      · exact ⟨_, rfl⟩
      · exact ⟨_, if_pos (by simpa using hupper)⟩
  · split
    · exact ⟨_, rfl⟩
    · exact ⟨_, if_pos (by simpa using hlower)⟩

theorem exists_hexValue4? {w x y z : UInt8} (hw : IsHex w) (hx : IsHex x) (hy : IsHex y) (hz : IsHex z) :
    ∃ n, hexValue4? w x y z = some n := by
  obtain ⟨nw, hnw⟩ := exists_hexValue? hw
  obtain ⟨nx, hnx⟩ := exists_hexValue? hx
  obtain ⟨ny, hny⟩ := exists_hexValue? hy
  obtain ⟨nz, hnz⟩ := exists_hexValue? hz
  exact ⟨_, by rw [hexValue4?, hnw, hnx, hny, hnz]; rfl⟩

/-- A string is passed over up to its quote, if the bound is long enough. -/
theorem reads_passString_loop {inner : List UInt8} (h : StringBody inner)
    (hbound : inner.length < bound.length) (rest : List UInt8) :
    Reads (passString bound) (inner ++ 0x22 :: rest) () rest := by
  -- Along the grammar of strings: each case is one turn of the loop.
  induction h generalizing bound with
  | nil =>
      obtain ⟨step, bound, rfl⟩ := List.exists_cons_of_length_pos hbound
      exact (reads_peek _).bind (reads_pass 0x22 rest)
  | @plain b inner hb _ ih =>
      obtain ⟨step, bound, rfl⟩ := List.exists_cons_of_length_pos (Nat.zero_lt_of_lt hbound)
      have hmore := ih (Nat.lt_of_succ_lt_succ hbound)
      refine (reads_peek _).bind ?_
      simp only [List.cons_append, List.head?_cons, hb.ite_eq]
      exact (reads_pass b _).bind hmore
  | @short mark inner hmark _ ih =>
      obtain ⟨step, bound, rfl⟩ := List.exists_cons_of_length_pos (Nat.zero_lt_of_lt hbound)
      simp only [List.length_cons] at hbound
      have hmore : Reads (passString bound) (inner ++ 0x22 :: rest) () rest := ih (by omega)
      obtain ⟨hnumeric, hshort⟩ := isSome_shortEscape? mark hmark
      refine (reads_peek _).bind ((reads_pass 0x5C _).bind ((reads_take mark _).bind ?_))
      simp only [hnumeric, hshort, if_true, Bool.false_eq_true, if_false]
      exact hmore
  | @numeric w x y z inner hw hx hy hz _ ih =>
      obtain ⟨step, bound, rfl⟩ := List.exists_cons_of_length_pos (Nat.zero_lt_of_lt hbound)
      simp only [List.length_cons] at hbound
      have hmore : Reads (passString bound) (inner ++ 0x22 :: rest) () rest := ih (by omega)
      obtain ⟨n, hn⟩ := exists_hexValue4? hw hx hy hz
      refine (reads_peek _).bind ((reads_pass 0x5C _).bind ((reads_take 0x75 _).bind ?_))
      exact (reads_hexDigits hn _).bind hmore

/-- A string is passed up to its closing quote. -/
theorem reads_passString {inner : List UInt8} (h : StringBody inner) (rest : List UInt8) :
    Reads (withBound passString) (inner ++ 0x22 :: rest) () rest := by
  apply Reads.withBound
  apply reads_passString_loop h
  simp only [List.length_cons, List.length_append]
  omega

/-! ## Numbers -/

/-- All digits are passed over, and they are counted. -/
theorem reads_passDigits {digits : List UInt8} (h : ∀ b ∈ digits, isDigit b = true)
    (hrest : rest.head?.any isDigit = false) :
    Reads passDigits (digits ++ rest) digits.length rest := by
  have hstop : rest.takeWhile isDigit = [] ∧ rest.dropWhile isDigit = rest := by
    cases rest with
    | nil => exact ⟨rfl, rfl⟩
    | cons b rest =>
        have hb : ¬isDigit b = true := Bool.eq_false_iff.mp hrest
        exact ⟨List.takeWhile_cons_of_neg hb, List.dropWhile_cons_of_neg hb⟩
  intro line column
  refine ⟨line, column + digits.length, ?_⟩
  simp only [passDigits, List.takeWhile_append_of_pos h, List.dropWhile_append_of_pos h, hstop,
    List.append_nil]

theorem reads_passExponentDigits {digits : List UInt8} (h : Digits digits)
    (hrest : rest.head?.any isDigit = false) :
    Reads passExponentDigits (digits ++ rest) () rest := by
  obtain ⟨hne, hall⟩ := h
  obtain ⟨b, more, rfl⟩ := List.exists_cons_of_ne_nil hne
  rw [List.forall_mem_cons] at hall
  refine (reads_take b _).bind ?_
  simp only [hall.1, if_true]
  exact (reads_passDigits hall.2 hrest).functor_map _

theorem ne_point_of_mark {mark : UInt8} (h : mark = 0x65 ∨ mark = 0x45) : (mark == 0x2E) = false := by
  rcases h with rfl | rfl <;> rfl

theorem isExponentMark_of_mark {mark : UInt8} (h : mark = 0x65 ∨ mark = 0x45) :
    isExponentMark mark = true := by
  rcases h with rfl | rfl <;> rfl

theorem reads_passExponent {mark : UInt8} {sign digits : List UInt8}
    (hsign : sign = [] ∨ sign = [0x2B] ∨ sign = [0x2D]) (h : Digits digits)
    (hrest : rest.head?.any isDigit = false) :
    Reads passExponent (mark :: (sign ++ (digits ++ rest))) () rest := by
  have hdigits := reads_passExponentDigits h hrest
  refine (reads_pass mark _).bind ((reads_nextIs _ _).bind ?_)
  rcases hsign with rfl | rfl | rfl
  · -- Without a sign a digit comes at once.
    obtain ⟨b, more, rfl⟩ := List.exists_cons_of_ne_nil h.1
    have hb : isDigit b = true := h.2 b List.mem_cons_self
    have hunsigned : (b == 0x2B || b == 0x2D) = false := by
      rw [Bool.or_eq_false_iff, beq_eq_false_iff_ne, beq_eq_false_iff_ne]
      exact ⟨ne_of_isDigit hb rfl, ne_of_isDigit hb rfl⟩
    rw [List.nil_append, List.cons_append, List.head?_cons, Option.any_some, hunsigned]
    exact hdigits
  · exact (reads_pass 0x2B _).bind hdigits
  · exact (reads_pass 0x2D _).bind hdigits

/-- An exponent, if there is one. -/
theorem reads_passExponent_or_nothing {exponent : List UInt8} (h : ExponentPart exponent)
    (hrest : Delimits rest) :
    Reads (do if ← nextIs isExponentMark then passExponent) (exponent ++ rest) () rest := by
  refine (reads_nextIs _ _).bind ?_
  cases h with
  | none =>
      rw [List.nil_append, hrest.any_eq_false rfl]
      exact reads_pure () rest
  | some hmark hsign hdigits =>
      rw [List.cons_append, List.append_assoc, List.head?_cons, Option.any_some,
        isExponentMark_of_mark hmark]
      exact reads_passExponent hsign hdigits (hrest.any_eq_false rfl)

/-- No digit comes behind a number or its fraction. -/
theorem noDigit_exponent {exponent : List UInt8} (h : ExponentPart exponent) (hrest : Delimits rest) :
    (exponent ++ rest).head?.any isDigit = false := by
  cases h with
  | none => exact hrest.any_eq_false rfl
  | some hmark _ _ => rcases hmark with rfl | rfl <;> rfl

/-- A point takes its digits with it, and an exponent if there is one. -/
theorem reads_passFraction {digits exponent : List UInt8} (h : Digits digits)
    (hexponent : ExponentPart exponent) (hrest : Delimits rest) :
    Reads passFraction (0x2E :: digits ++ (exponent ++ rest)) () rest := by
  have hdigits := reads_passDigits h.2 (noDigit_exponent hexponent hrest)
  have hcount : (digits.length == 0) = false := by
    rw [beq_eq_false_iff_ne]
    exact mt List.eq_nil_of_length_eq_zero h.1
  refine (reads_pass 0x2E _).bind (hdigits.bind ?_)
  simp only [hcount, Bool.false_eq_true, if_false]
  exact reads_passExponent_or_nothing hexponent hrest

/-- What follows the whole part of a number. -/
theorem reads_afterWhole {fraction exponent : List UInt8} (hfraction : FractionPart fraction)
    (hexponent : ExponentPart exponent) (hrest : Delimits rest) :
    Reads (do
      if ← nextIs (· == 0x2E) then passFraction
      else if ← nextIs isExponentMark then passExponent) (fraction ++ (exponent ++ rest)) () rest := by
  refine (reads_nextIs _ _).bind ?_
  cases hfraction with
  | none =>
      have hpoint : (exponent ++ rest).head?.any (· == 0x2E) = false := by
        cases hexponent with
        | none => exact hrest.any_eq_false rfl
        | some hmark _ _ => exact ne_point_of_mark hmark
      rw [List.nil_append, hpoint]
      exact reads_passExponent_or_nothing hexponent hrest
  | some hdigits => exact reads_passFraction hdigits hexponent hrest

theorem reads_passNumber {number : List UInt8} (h : UnsignedText number) (hrest : Delimits rest) :
    Reads passNumber (number ++ rest) () rest := by
  obtain ⟨whole, fraction, exponent, hwhole, hfraction, hexponent, rfl⟩ := h
  have hafter := reads_afterWhole hfraction hexponent hrest
  have hstop : (fraction ++ (exponent ++ rest)).head?.any isDigit = false := by
    cases hfraction with
    | none => rw [List.nil_append]; exact noDigit_exponent hexponent hrest
    | some _ => rfl
  rw [List.append_assoc, List.append_assoc]
  cases hwhole with
  | zero =>
      refine (reads_take 0x30 _).bind ((reads_nextIs isDigit (fraction ++ (exponent ++ rest))).bind ?_)
      rw [hstop]
      exact hafter
  | digits hb hzero hmore =>
      refine (reads_take _ _).bind ?_
      simp only [beq_iff_eq, hzero, hb, if_true, if_false]
      exact ((reads_passDigits hmore hstop).functor_map _).bind hafter

/-! ## Values without parts -/

/-- The value is passed over wherever it stands, and the containers around it stay open. The loop has as many
turns left as it takes, if it has one for each byte. -/
def PassedOver (v : List UInt8) : Prop :=
  ∀ (frames : List Frame) (bound : Bound) (before rest after : List UInt8), visible before = v ++ rest →
    Delimits rest → v.length ≤ bound.length →
    (∀ left : Bound, bound.length ≤ left.length + v.length →
      Reads (passFrom left frames false) rest () after) →
    Reads (passFrom bound frames true) before () after

/-- A value without parts takes one turn of the loop. -/
theorem passedOver_of_leaf {v : List UInt8} (hv : ValueText v)
    (h : ∀ before rest, visible before = v ++ rest → Delimits rest → Reads passLeaf before none rest) :
    PassedOver v := by
  intro frames bound before rest after hbefore hrest hbound hafter
  have hpos : 0 < v.length := by
    obtain ⟨b, more, rfl, -⟩ := hv.begins
    exact Nat.succ_pos _
  obtain ⟨step, bound, rfl⟩ := List.exists_cons_of_length_pos (Nat.lt_of_lt_of_le hpos hbound)
  refine (h before rest hbefore hrest).bind (hafter bound ?_)
  rw [List.length_cons]
  omega

theorem passedOver_unsigned {number : List UInt8} (h : UnsignedText number) : PassedOver number := by
  refine passedOver_of_leaf (.unsigned h) fun before rest hbefore hrest => ?_
  obtain ⟨b, more, rfl, hb⟩ := h.begins
  refine (reads_token_visible hbefore).bind ?_
  have hnumber : Reads (do passNumber; return none : Reader (Option Frame)) (b :: more ++ rest) none rest :=
    (reads_passNumber h hrest).bind (reads_pure none rest)
  -- None of the other bytes that may begin a value is a digit.
  split
  · next h => cases h
  iterate 7
    · next h => exact absurd (Option.some.inj h) (ne_of_isDigit hb rfl)
  · next b' _ _ _ _ _ _ _ heq =>
      cases heq
      rw [if_pos hb]
      exact hnumber

theorem passedOver_negative {number : List UInt8} (h : UnsignedText number) :
    PassedOver (0x2D :: number) :=
  passedOver_of_leaf (.negative h) fun _ rest hbefore hrest =>
    (reads_token_visible hbefore).bind ((reads_pass 0x2D _).bind
      ((reads_passNumber h hrest).bind (reads_pure none rest)))

theorem passedOver_string {inner : List UInt8} (h : StringBody inner) :
    PassedOver (0x22 :: (inner ++ [0x22])) := by
  refine passedOver_of_leaf (.string h) fun before rest hbefore hrest => ?_
  have hstring : Reads (withBound passString) (inner ++ [0x22] ++ rest) () rest := by
    rw [List.append_assoc]
    exact reads_passString h rest
  exact (reads_token_visible hbefore).bind ((reads_pass 0x22 _).bind
    (hstring.bind (reads_pure none rest)))

theorem passedOver_null : PassedOver [0x6E, 0x75, 0x6C, 0x6C] :=
  passedOver_of_leaf .nullWord fun _ rest hbefore _ =>
    (reads_token_visible hbefore).bind ((reads_pass 0x6E _).bind
      ((reads_word ['u', 'l', 'l'] rfl rest).bind (reads_pure none rest)))

theorem passedOver_true : PassedOver [0x74, 0x72, 0x75, 0x65] :=
  passedOver_of_leaf .trueWord fun _ rest hbefore _ =>
    (reads_token_visible hbefore).bind ((reads_pass 0x74 _).bind
      ((reads_word ['r', 'u', 'e'] rfl rest).bind (reads_pure none rest)))

theorem passedOver_false : PassedOver [0x66, 0x61, 0x6C, 0x73, 0x65] :=
  passedOver_of_leaf .falseWord fun _ rest hbefore _ =>
    (reads_token_visible hbefore).bind ((reads_pass 0x66 _).bind
      ((reads_word ['a', 'l', 's', 'e'] rfl rest).bind (reads_pure none rest)))

/-! ## Containers -/

/-- A colon, with white space before it. -/
theorem reads_colon_visible (h : visible before = 0x3A :: rest) : Reads colon before () rest :=
  (reads_token_visible h).bind (reads_pass 0x3A rest)

/-- The part of a container is passed up to its value, and the value may be passed as well. -/
def PassesPart (frame : Frame) (part : List UInt8) : Prop :=
  ∃ v back, PassedOver v ∧ Blank back ∧ v.length + back.length ≤ part.length ∧ ∀ rest,
    (∃ b more, visible (part ++ rest) = b :: more ∧ b ≠ frame.closer) ∧
    ∀ before, visible before = visible (part ++ rest) → ∃ middle,
      Reads (passBefore frame) before () middle ∧ visible middle = v ++ (back ++ rest)

theorem passesPart_item {v part : List UInt8} (h : Padded v part) (hv : ValueText v)
    (hpassed : PassedOver v) : PassesPart .list part := by
  obtain ⟨back, hback, hlength, hvisible⟩ := h.exists_visible hv
  refine ⟨v, back, hpassed, hback, hlength, fun rest => ⟨?_, fun before hbefore => ?_⟩⟩
  · obtain ⟨b, more, rfl, hb⟩ := hv.begins
    exact ⟨b, _, hvisible rest, hb.ne_closer (.inl rfl)⟩
  · exact ⟨before, reads_pure () before, hbefore.trans (hvisible rest)⟩

theorem passesPart_member {m : Member} {part : List UInt8} (h : m.Text part) (hkey : StringBody m.key)
    (hvalue : ValueText m.value) (hpassed : PassedOver m.value) : PassesPart .map part := by
  obtain ⟨gap, front, back, hgap, hfront, hback, hlength, hvisible⟩ := h.exists_visible
  refine ⟨m.value, back, hpassed, hback, hlength, fun rest => ⟨?_, fun before hbefore => ?_⟩⟩
  · exact ⟨0x22, _, hvisible rest, by decide⟩
  · refine ⟨front ++ (m.value ++ (back ++ rest)), ?_, ?_⟩
    · refine (reads_token_visible (hbefore.trans (hvisible rest))).bind ?_
      refine (reads_pass 0x22 _).bind ((reads_passString hkey _).bind (reads_colon_visible ?_))
      rw [visible_append hgap]
      exact visible_cons rfl _
    · rw [visible_append hfront, hvalue.visible_append]

theorem Frame.isCloser (frame : Frame) : IsCloser frame.closer := by
  cases frame with
  | list => exact .inl rfl
  | map => exact .inr rfl

/-- The other parts of a container after one of them, and its end. -/
theorem reads_passFrom_following {frame : Frame} {frames : List Frame} {parts : List (List UInt8)}
    (hparts : ∀ part ∈ parts, PassesPart frame part)
    (hbefore : visible before = following frame.closer parts ++ rest)
    (hbound : (following frame.closer parts).length ≤ bound.length)
    (hafter : ∀ left : Bound, bound.length ≤ left.length + (following frame.closer parts).length →
      Reads (passFrom left frames false) rest () after) :
    Reads (passFrom bound (frame :: frames) false) before () after := by
  -- A comma and the value behind it take a turn each, and the end of the container takes one.
  induction parts generalizing bound before with
  | nil =>
      obtain ⟨step, bound, rfl⟩ := List.exists_cons_of_length_pos hbound
      have hclosed : Reads (passSeparator frame) before false rest := by
        refine (reads_token_visible hbefore).bind ?_
        simp only [beq_self_eq_true, if_true]
        exact (reads_pass _ rest).bind (reads_pure false rest)
      exact hclosed.bind (hafter bound (Nat.le_refl _))
  | cons part parts ih =>
      obtain ⟨step, bound, rfl⟩ := List.exists_cons_of_length_pos
        (Nat.lt_of_lt_of_le (Nat.succ_pos _) hbound)
      rw [List.forall_mem_cons] at hparts
      obtain ⟨v, back, hpassed, hback, hlength, hpart⟩ := hparts.1
      let more := following frame.closer parts ++ rest
      obtain ⟨-, hvalue⟩ := hpart more
      obtain ⟨middle, hmiddle, hvisible⟩ := hvalue (part ++ more) rfl
      have hanother : Reads (passSeparator frame) before true middle := by
        rw [following, List.cons_append, List.append_assoc] at hbefore
        have hne : (0x2C == frame.closer) = false := by cases frame <;> rfl
        refine (reads_token_visible hbefore).bind ?_
        simp only [hne, Bool.false_eq_true, if_false, beq_self_eq_true, if_true]
        exact (reads_pass 0x2C _).bind (hmiddle.bind (reads_pure true middle))
      simp only [following, List.length_cons, List.length_append] at hbound hafter
      refine hanother.bind (hpassed _ _ _ _ _ hvisible (hback.delimits ?_) (by omega) fun left hleft => ?_)
      · exact delimits_following frame.isCloser parts rest
      · refine ih hparts.2 ?_ (by omega) fun left' hleft' => hafter left' (by omega)
        rw [visible_append hback]
        exact visible_following frame.isCloser parts rest

def Frame.opener : Frame → UInt8
  | .list => 0x5B
  | .map => 0x7B

theorem reads_passLeaf_opener (frame : Frame) (h : visible before = frame.opener :: rest) :
    Reads passLeaf before (some frame) rest := by
  cases frame with
  | list => exact (reads_token_visible h).bind ((reads_pass 0x5B rest).bind (reads_pure _ rest))
  | map => exact (reads_token_visible h).bind ((reads_pass 0x7B rest).bind (reads_pure _ rest))

/-- A container is passed over turn by turn: its bracket, its parts and its end. -/
theorem passedOver_container (frame : Frame) {parts : List (List UInt8)} {inner : List UInt8}
    (h : Enclosed frame.closer parts inner) (hparts : ∀ part ∈ parts, PassesPart frame part) :
    PassedOver (frame.opener :: inner) := by
  intro frames bound before rest after hbefore hrest hbound hafter
  obtain ⟨step, bound, rfl⟩ := List.exists_cons_of_length_pos (Nat.lt_of_lt_of_le (Nat.succ_pos _) hbound)
  simp only [List.length_cons] at hbound hafter
  -- The bracket opens a frame; then comes the end, or a first part and what follows it.
  refine (reads_passLeaf_opener frame hbefore).bind ?_
  cases h with
  | @empty blanks hblanks =>
      have hclosed : Reads (passOpening frame) (blanks ++ [frame.closer] ++ rest) false rest := by
        have hvisible : visible (blanks ++ [frame.closer] ++ rest) = frame.closer :: rest := by
          rw [List.append_assoc, visible_append hblanks]
          exact visible_following frame.isCloser [] rest
        refine (reads_token_visible hvisible).bind ?_
        simp only [beq_self_eq_true, if_true]
        exact (reads_pass _ rest).bind (reads_pure false rest)
      exact hclosed.bind (hafter bound (by omega))
  | parts part parts =>
      rw [List.forall_mem_cons] at hparts
      obtain ⟨v, back, hpassed, hback, hlength, hpart⟩ := hparts.1
      let more := following frame.closer parts ++ rest
      obtain ⟨⟨b, tail, hbegins, hne⟩, hvalue⟩ := hpart more
      obtain ⟨middle, hmiddle, hvisible⟩ := hvalue (b :: tail) (by rw [← hbegins, visible_visible])
      have hopened : Reads (passOpening frame) (part ++ following frame.closer parts ++ rest) true middle := by
        rw [List.append_assoc]
        refine (reads_token_visible hbegins).bind ?_
        simp only [beq_iff_eq, hne, if_false]
        exact hmiddle.bind (reads_pure true middle)
      rw [List.length_append] at hbound hafter
      refine hopened.bind (hpassed _ _ _ _ _ hvisible (hback.delimits ?_) (by omega) fun left hleft => ?_)
      · exact delimits_following frame.isCloser parts rest
      · refine reads_passFrom_following hparts.2 ?_ (by omega) fun left' hleft' => hafter left' (by omega)
        rw [visible_append hback]
        exact visible_following frame.isCloser parts rest

/-- Every value is passed over. -/
theorem passedOver {v : List UInt8} (h : ValueText v) : PassedOver v := by
  -- On the value; its parts are passed with the container itself on the stack.
  induction h with
  | nullWord => exact passedOver_null
  | trueWord => exact passedOver_true
  | falseWord => exact passedOver_false
  | unsigned h => exact passedOver_unsigned h
  | negative h => exact passedOver_negative h
  | string h => exact passedOver_string h
  | @list items text h hitems ih =>
      obtain ⟨parts, inner, hparts, hinner, rfl⟩ := h
      have hitem : ∀ part ∈ parts, PassesPart .list part := by
        intro part hpart
        obtain ⟨item, hmem, hpadded⟩ := (exists_of_forall₂ hparts).2 part hpart
        exact passesPart_item hpadded (hitems item hmem) (ih item hmem)
      exact passedOver_container .list hinner hitem
  | @object members text h hkeys hvalues ih =>
      obtain ⟨parts, inner, hparts, hinner, rfl⟩ := h
      have hmember : ∀ part ∈ parts, PassesPart .map part := by
        intro part hpart
        obtain ⟨m, hmem, htext⟩ := (exists_of_forall₂ hparts).2 part hpart
        exact passesPart_member htext (hkeys m hmem) (hvalues m hmem) (ih m hmem)
      exact passedOver_container .map hinner hmember

/-- **A value that nobody asks for** is passed over up to its end. -/
theorem reads_passValue {v : List UInt8} (h : ValueText v) (hbefore : visible before = v ++ rest)
    (hrest : Delimits rest) : Reads passValue before () rest := by
  have hlength : v.length ≤ before.length := by
    have hle : (visible before).length ≤ before.length := (List.dropWhile_sublist _).length_le
    rw [hbefore, List.length_append] at hle
    omega
  apply Reads.withBound
  have hbound := Nat.le_succ_of_le (Nat.le_succ_of_le hlength)
  refine passedOver h _ _ _ _ _ hbefore hrest hbound fun left hleft => ?_
  -- The loop has a turn left to find that no container is open.
  simp only [List.length_cons] at hleft
  obtain ⟨step, left, rfl⟩ := List.exists_cons_of_length_pos (l := left) (by omega)
  exact reads_pure () rest

end Reader

end SampleTypes.Json
