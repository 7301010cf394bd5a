import SampleTypes.Json.Printer
import SampleTypes.Proofs.Json.Reading

/-!
# Strings that are written are read back

A text is read as the bytes of its UTF-8 form (`utf8`). The bytes of a string are all passed on as they
are, except for the escapes, and an escape yields the bytes of the character that it was written for;
so the bytes that are collected are those of the string itself.

* `reads_writeString`: after its opening quote, a string that was written is read back.
-/

namespace SampleTypes.Json

/-! ## The bytes of a text -/

def utf8 (chars : List Char) : List UInt8 :=
  chars.flatMap String.utf8EncodeChar

@[simp] theorem utf8_nil : utf8 [] = [] := rfl

theorem utf8_cons (c : Char) (chars : List Char) :
    utf8 (c :: chars) = String.utf8EncodeChar c ++ utf8 chars := rfl

theorem utf8_append (a b : List Char) : utf8 (a ++ b) = utf8 a ++ utf8 b :=
  List.flatMap_append

/-- The loop that lists bytes puts those that are left behind the ones it has. -/
private theorem toList_loop (bytes : ByteArray) (i : Nat) (reversed : List UInt8) :
    ByteArray.toList.loop bytes i reversed = reversed.reverse ++ bytes.data.toList.drop i := by
  fun_induction ByteArray.toList.loop bytes i reversed with
  | case1 i reversed hlt ih =>
      have hi : i < bytes.data.toList.length := by simpa using hlt
      rw [ih, List.reverse_cons, List.append_assoc, List.drop_eq_getElem_cons hi]
      simp [ByteArray.get!, hlt]
  | case2 i reversed hge =>
      rw [List.drop_eq_nil_of_le (by simpa using Nat.le_of_not_lt hge), List.append_nil]

/-- The bytes of a text, one by one. -/
theorem toUTF8_ofList (chars : List Char) : (String.ofList chars).toUTF8.toList = utf8 chars := by
  rw [String.toUTF8_eq_toByteArray, String.toByteArray_ofList, ByteArray.toList, toList_loop,
    List.utf8Encode, List.toList_data_toByteArray]
  rfl

/-- The bytes of a text are read as the text. -/
theorem fromUTF8?_utf8 (s : String) :
    String.fromUTF8? (ByteArray.mk (utf8 s.toList).toArray) = some s := by
  have hbytes : ByteArray.mk (utf8 s.toList).toArray = s.toByteArray := by
    rw [← String.utf8Encode_toList, List.utf8Encode]
    exact ByteArray.ext (by rw [List.data_toByteArray]; rfl)
  rw [hbytes, String.fromUTF8?, dif_pos s.isValidUTF8]
  rfl

/-! ## Bytes that stand for themselves -/

/-- A byte that neither ends a string nor begins an escape, and that may stand in a string. -/
def IsPlain (b : UInt8) : Prop :=
  0x20 ≤ b.toNat ∧ b.toNat ≠ 0x22 ∧ b.toNat ≠ 0x5C

/-- Loops over strings do with such a byte what is left to the last. -/
theorem IsPlain.ite_eq {α : Type} {b : UInt8} (hb : IsPlain b) (quote slash low plain : α) :
    (if b == 0x22 then quote else if b == 0x5C then slash else if b < 0x20 then low else plain) = plain := by
  obtain ⟨hlow, hquote, hslash⟩ := hb
  have hnoQuote : ¬(b == 0x22) = true := by
    rw [beq_iff_eq]
    rintro rfl
    exact hquote rfl
  have hnoSlash : ¬(b == 0x5C) = true := by
    rw [beq_iff_eq]
    rintro rfl
    exact hslash rfl
  have hnotLow : ¬b < 0x20 := by
    rw [UInt8.lt_iff_toNat_lt]
    exact Nat.not_lt.mpr hlow
  rw [if_neg hnoQuote, if_neg hnoSlash, if_neg hnotLow]

/-- The bytes of a character that is written as it is. -/
theorem isPlain_of_mem {c : Char} (hlow : 0x20 ≤ c.toNat) (hquote : c ≠ '"') (hslash : c ≠ '\\')
    {b : UInt8} (hb : b ∈ String.utf8EncodeChar c) : IsPlain b := by
  have hquote' : c.toNat ≠ 0x22 := fun h => hquote (Char.toNat_inj.mp h)
  have hslash' : c.toNat ≠ 0x5C := fun h => hslash (Char.toNat_inj.mp h)
  have hv : c.toNat = c.val.toNat := rfl
  rw [String.utf8EncodeChar] at hb
  -- One byte, or several ones that are all beyond ASCII.
  split at hb
  · rw [List.mem_singleton] at hb
    subst hb
    rw [IsPlain, UInt8.toNat_ofNat']
    omega
  · have hbeyond : 0x80 ≤ b.toNat := by
      repeat' split at hb
      all_goals
        simp only [List.mem_cons, List.not_mem_nil, or_false] at hb
        rcases hb with rfl | rfl | rfl | rfl | rfl <;> rw [UInt8.toNat_ofNat'] <;> omega
    exact ⟨by omega, by omega, by omega⟩

/-! ## Reading a string -/

namespace Reader

variable {before after reversed out piece bytes : List UInt8} {bound : Bound} {step : UInt8}

/-- The quote ends a string, and what has been read is put in order. -/
theorem reads_stringBytes_quote (step : UInt8) (bound : Bound) (reversed after : List UInt8) :
    Reads (stringBytes (step :: bound) reversed) (0x22 :: after) reversed.reverse after :=
  (reads_peek _).bind ((reads_pass 0x22 after).bind (reads_pure _ _))

theorem reads_stringBytes_plain {b : UInt8} (hb : IsPlain b)
    (h : Reads (stringBytes bound (b :: reversed)) before out after) :
    Reads (stringBytes (step :: bound) reversed) (b :: before) out after := by
  refine (reads_peek _).bind ?_
  simp only [List.head?_cons, hb.ite_eq]
  exact (reads_pass b before).bind h

theorem reads_stringBytes_escape (hescape : Reads escape piece bytes before)
    (h : Reads (stringBytes bound (bytes.reverse ++ reversed)) before out after) :
    Reads (stringBytes (step :: bound) reversed) (0x5C :: piece) out after :=
  (reads_peek _).bind ((reads_pass 0x5C piece).bind (hescape.bind h))

/-- Bytes that stand for themselves are passed on. -/
theorem reads_stringBytes_allPlain {plain : List UInt8} (hplain : ∀ b ∈ plain, IsPlain b)
    (hbound : plain.length ≤ bound.length)
    (h : Reads (stringBytes (bound.drop plain.length) (plain.reverse ++ reversed)) before out
      after) :
    Reads (stringBytes bound reversed) (plain ++ before) out after := by
  induction plain generalizing bound reversed with
  | nil => exact h
  | cons b plain ih =>
      rw [List.forall_mem_cons] at hplain
      cases bound with
      | nil => exact absurd hbound (Nat.not_succ_le_zero _)
      | cons step bound =>
          apply reads_stringBytes_plain hplain.1
          apply ih hplain.2 (Nat.le_of_succ_le_succ hbound)
          simpa using h

/-! ## Escapes -/

theorem reads_escape_short {b byte : UInt8} (h : shortEscape? b = some byte)
    (rest : List UInt8) : Reads escape (b :: rest) [byte] rest := by
  refine (reads_take b rest).bind ?_
  simp only [h]
  exact reads_pure [byte] rest

theorem reads_hexDigits {a b c d : UInt8} {n : Nat} (h : hexValue4? a b c d = some n)
    (rest : List UInt8) : Reads hexDigits (a :: b :: c :: d :: rest) n rest := by
  refine reads_of_rest (fun line column => ?_) fun line column => rest_advanceBy 4 _
  rw [hexDigits]
  simp only [h]

/-- The escape of a control character that has no short one. -/
theorem reads_escape_numeric {n : Nat} (hn : n < 0x20) (rest : List UInt8) :
    Reads escape (0x75 :: 0x30 :: 0x30 :: utf8 [hexDigit (n / 16), hexDigit (n % 16)] ++ rest)
      (codePoint n) rest := by
  have hdigits : ∀ n < 0x20, utf8 [hexDigit (n / 16), hexDigit (n % 16)] =
      [UInt8.ofNat (hexDigit (n / 16)).toNat, UInt8.ofNat (hexDigit (n % 16)).toNat] ∧
      hexValue4? 0x30 0x30 (UInt8.ofNat (hexDigit (n / 16)).toNat)
        (UInt8.ofNat (hexDigit (n % 16)).toNat) = some n := by
    decide
  obtain ⟨hbytes, hvalue⟩ := hdigits n hn
  rw [hbytes]
  refine (reads_take 0x75 _).bind ?_
  refine (reads_hexDigits hvalue rest).bind ?_
  rw [if_neg (by simp; omega), if_neg (by simp; omega)]
  exact reads_pure (codePoint n) rest

/-- The characters with a short escape, the bytes of their escapes' marks, and their own bytes. -/
def shortEscapes : List (Char × UInt8 × UInt8) :=
  [('"', 0x22, 0x22), ('\\', 0x5C, 0x5C), ('\x08', 0x62, 0x08), ('\x0C', 0x66, 0x0C),
   ('\n', 0x6E, 0x0A), ('\r', 0x72, 0x0D), ('\t', 0x74, 0x09)]

/-- What is written for a character with a short escape is read back. -/
theorem shortEscapes_written : ∀ entry ∈ shortEscapes,
    utf8 (Json.escape entry.1) = [0x5C, entry.2.1] ∧ shortEscape? entry.2.1 = some entry.2.2 ∧
      String.utf8EncodeChar entry.1 = [entry.2.2] := by
  decide

/-- A character is written as it is, or as an escape that yields its bytes. -/
theorem escape_cases (c : Char) :
    (Json.escape c = [c] ∧ ∀ b ∈ String.utf8EncodeChar c, IsPlain b) ∨
    ∃ piece, utf8 (Json.escape c) = 0x5C :: piece ∧
      ∀ rest, Reads escape (piece ++ rest) (String.utf8EncodeChar c) rest := by
  by_cases hshort : ∃ entry ∈ shortEscapes, entry.1 = c
  · obtain ⟨entry, hentry, rfl⟩ := hshort
    obtain ⟨hwritten, hmark, hbytes⟩ := shortEscapes_written entry hentry
    refine .inr ⟨[entry.2.1], hwritten, fun rest => ?_⟩
    rw [hbytes]
    exact reads_escape_short hmark rest
  · have hne : ∀ entry ∈ shortEscapes, c ≠ entry.1 :=
      fun entry hentry heq => hshort ⟨entry, hentry, heq.symm⟩
    simp only [shortEscapes, List.forall_mem_cons, List.not_mem_nil, false_implies, implies_true,
      and_true] at hne
    obtain ⟨hquote, hslash, hback, hfeed, hline, hreturn, htab⟩ := hne
    have hback' : c.toNat ≠ 0x08 := fun h => hback (Char.toNat_inj.mp h)
    have hfeed' : c.toNat ≠ 0x0C := fun h => hfeed (Char.toNat_inj.mp h)
    -- What has no short escape is written with its number if it is a control character.
    by_cases hlow : c.toNat < 0x20
    · refine .inr ⟨0x75 :: 0x30 :: 0x30 :: utf8 [hexDigit (c.toNat / 16), hexDigit (c.toNat % 16)],
        ?_, fun rest => ?_⟩
      · simp only [Json.escape, beq_iff_eq, hquote, hslash, hlow, hback', hfeed', hline, hreturn,
          htab, if_true, if_false]
        rfl
      · have hcode : codePoint c.toNat = String.utf8EncodeChar c := by
          rw [codePoint, Char.ofNat_toNat]
        rw [← hcode]
        exact reads_escape_numeric hlow rest
    · refine .inl ⟨?_, fun b hb => isPlain_of_mem (Nat.le_of_not_lt hlow) hquote hslash hb⟩
      simp only [Json.escape, beq_iff_eq, hquote, hslash, hlow, if_false]

/-! ## Whole strings -/

/-- One character of a string, however it is written, yields its own bytes. -/
theorem reads_stringBytes_char (c : Char) (hbound : (utf8 (Json.escape c)).length ≤ bound.length)
    (h : ∀ left : Bound, bound.length ≤ left.length + (utf8 (Json.escape c)).length →
      Reads (stringBytes left ((String.utf8EncodeChar c).reverse ++ reversed)) before out after) :
    Reads (stringBytes bound reversed) (utf8 (Json.escape c) ++ before) out after := by
  rcases escape_cases c with ⟨hwritten, hplain⟩ | ⟨piece, hwritten, hescape⟩
  · have hutf8 : utf8 [c] = String.utf8EncodeChar c := by rw [utf8_cons, utf8_nil, List.append_nil]
    rw [hwritten, hutf8] at hbound h ⊢
    refine reads_stringBytes_allPlain hplain hbound (h _ ?_)
    rw [List.length_drop]
    omega
  · rw [hwritten] at hbound h ⊢
    cases bound with
    | nil => exact absurd hbound (Nat.not_succ_le_zero _)
    | cons step bound =>
        apply reads_stringBytes_escape (hescape before)
        apply h
        rw [List.length_cons, List.length_cons]
        omega

/-- The loop collects the bytes of the string that was written. -/
theorem reads_stringBytes (chars : List Char)
    (hbound : (utf8 (chars.flatMap Json.escape)).length < bound.length) :
    Reads (stringBytes bound reversed) (utf8 (chars.flatMap Json.escape) ++ 0x22 :: after)
      (reversed.reverse ++ utf8 chars) after := by
  induction chars generalizing bound reversed with
  | nil =>
      cases bound with
      | nil => exact absurd hbound (Nat.not_lt_zero _)
      | cons step bound =>
          rw [utf8_nil, List.append_nil]
          exact reads_stringBytes_quote step bound reversed after
  | cons c chars ih =>
      rw [List.flatMap_cons, utf8_append, List.length_append] at hbound
      rw [List.flatMap_cons, utf8_append, List.append_assoc]
      apply reads_stringBytes_char c (by omega)
      intro left hleft
      have hrest : Reads (stringBytes left ((String.utf8EncodeChar c).reverse ++ reversed))
          (utf8 (chars.flatMap Json.escape) ++ 0x22 :: after)
          (((String.utf8EncodeChar c).reverse ++ reversed).reverse ++ utf8 chars) after :=
        ih (by omega)
      simpa [utf8_cons] using hrest

theorem reads_textOf (s : String) (rest : List UInt8) :
    Reads (textOf (utf8 s.toList)) rest s rest := by
  intro line column
  refine ⟨line, column, ?_⟩
  rw [textOf]
  simp only [fromUTF8?_utf8]

/-- A string that was written is read back, once its opening quote is passed. -/
theorem reads_string (s : String) (after : List UInt8) :
    Reads string (utf8 (s.toList.flatMap Json.escape) ++ 0x22 :: after) s after := by
  have hbytes : Reads (withBound fun bound => stringBytes bound [])
      (utf8 (s.toList.flatMap Json.escape) ++ 0x22 :: after) (utf8 s.toList) after := by
    apply Reads.withBound
    apply reads_stringBytes s.toList
    simp only [List.length_cons, List.length_append]
    omega
  exact hbytes.bind (reads_textOf s after)

theorem utf8_writeString (s : String) :
    utf8 (writeString s) = 0x22 :: (utf8 (s.toList.flatMap Json.escape) ++ [0x22]) := by
  rw [writeString, List.cons_append, utf8_cons, utf8_append]
  rfl

end Reader

end SampleTypes.Json
