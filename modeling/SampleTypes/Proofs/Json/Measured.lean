import SampleTypes.Proofs.Json.Passing
import SampleTypes.Proofs.Json.Trailing

/-!
# Readers that take whole values

Readers of typed values are put before texts of JSON, and these may not suit them. Whatever such a reader
takes from the text of a value, it takes the whole of it, and nothing behind (`Measured`); so what stands next
to a value that is read does not matter to it, and what does not read a value does not fall into another one
half-way.
-/

namespace SampleTypes.Json.Reader

variable {α β σ : Type} {reader : Reader α} {c c' : Cursor} {a a' : α} {v rest after inner : List UInt8}

/-- If the reader reads these bytes, then a value and a rest of which the condition holds. -/
def Ensures (reader : Reader α) (before : List UInt8) (condition : α → List UInt8 → Prop) : Prop :=
  ∀ c a c', c.rest = before → reader c = .ok a c' → condition a c'.rest

/-- If the reader reads these bytes, it leaves those. -/
abbrev Leaves (reader : Reader α) (before after : List UInt8) : Prop :=
  Ensures reader before fun _ rest => rest = after

/-- What may be read from the text of a value is read from the whole of it, with white space in front or
not. -/
structure Measured (reader : Reader α) : Prop where
  /-- What stands behind a value makes no difference. -/
  closes : Closes reader
  /-- White space in front makes no difference. -/
  led : ∀ c a c', reader c = .ok a c' ↔ reader c.toToken = .ok a c'
  /-- The whole of a value is taken, and what follows it is left. -/
  whole : ∀ {v rest before}, ValueText v → Delimits rest → visible before = v ++ rest →
    Leaves reader before rest

/-! ## One reading -/

/-- There is only one way to read. -/
theorem Reads.of_ok {before : List UInt8} (h : Reads reader before a after) (hc : c.rest = before)
    (hok : reader c = .ok a' c') : a' = a ∧ c'.rest = after := by
  subst hc
  obtain ⟨line, column, heq⟩ := h c.line c.column
  rw [heq] at hok
  cases hok
  exact ⟨rfl, rfl⟩

/-- What is read from some bytes is read from every cursor in front of them. -/
theorem Reads.exists_ok {before : List UInt8} (h : Reads reader before a after) (hc : c.rest = before) :
    ∃ c', reader c = .ok a c' ∧ c'.rest = after := by
  subst hc
  obtain ⟨line, column, heq⟩ := h c.line c.column
  exact ⟨_, heq, rfl⟩

/-- A reader that does not look behind what it takes reads it before all other bytes. -/
theorem Closes.reads {used : List UInt8} (h : Closes reader) (hok : reader c = .ok a c')
    (hc : c.rest = used ++ c'.rest) (rest : List UInt8) : Reads reader (used ++ rest) a rest := by
  obtain ⟨used', hused', hall⟩ := echoes_iff.mp h.1 c a c' hok
  cases List.append_cancel_right (hc.symm.trans hused')
  intro line column
  obtain ⟨d, hread, hrest⟩ := hall ⟨used ++ rest, line, column⟩ rest rfl False.elim
  exact ⟨d.line, d.column, by rw [hread, ← hrest]⟩

/-- Behind white space, the reader goes on with the first byte that is seen. -/
theorem token_bind_eq {next : Option UInt8 → Reader α} {b : UInt8} {more : List UInt8}
    (h : visible c.rest = b :: more) : (token >>= next) c = next (some b) c.toToken := by
  have hrest : c.toToken.rest = b :: more := (rest_toToken c).trans h
  have hhead : c.toToken.rest.head? = some b := by rw [hrest, List.head?_cons]
  show next c.toToken.rest.head? c.toToken = _
  rw [hhead]

theorem pass_token_bind_eq {next : Option UInt8 → Reader α} {b : UInt8} {more : List UInt8}
    (h : visible c.advance.rest = b :: more) :
    (pass >>= fun _ => token >>= next) c = next (some b) c.advance.toToken :=
  token_bind_eq h

/-- A byte that is taken has to be there, if the end is refused. -/
theorem exists_of_take_bind {next : Option UInt8 → Reader α} (hnone : Fails (next none))
    (h : (take >>= next) c = .ok a c') : ∃ b more, c.rest = b :: more ∧ c.advance.rest = more ∧
      next (some b) c.advance = .ok a c' := by
  change next c.rest.head? c.advance = _ at h
  cases hrest : c.rest with
  | nil =>
      rw [hrest] at h
      exact absurd h (hnone _ _ _)
  | cons b more =>
      rw [hrest] at h
      exact ⟨b, more, rfl, by rw [rest_advance, hrest, List.tail_cons], h⟩

theorem toToken_toToken (c : Cursor) : c.toToken.toToken = c.toToken := by
  have hpass : ∀ (rest : List UInt8) (line column : Nat),
      (Cursor.passBlanks rest line column).toToken = Cursor.passBlanks rest line column := by
    intro rest
    induction rest with
    | nil => exact fun _ _ => rfl
    | cons b rest ih =>
        intro line column
        rw [Cursor.passBlanks]
        split
        · exact ih _ _
        · next hline =>
            split
            · exact ih _ _
            · next hblank =>
                rw [Cursor.toToken, Cursor.passBlanks, if_neg hline, if_neg hblank]
  exact hpass _ _ _

/-! ## Words and strings -/

theorem rest_of_word {letters : List Char} (h : word letters c = .ok () c') :
    c'.rest = c.rest.drop letters.length := by
  induction letters generalizing c with
  | nil =>
      cases h
      rfl
  | cons letter letters ih =>
      obtain ⟨b, more, hc, hadvance, h⟩ := exists_of_take_bind (fails_refuse _) h
      dsimp only at h
      split at h
      · rw [ih h, hadvance, hc, List.length_cons, List.drop_succ_cons]
      · cases h

theorem rest_of_hexDigits {n : Nat} (h : hexDigits c = .ok n c') : c'.rest = c.rest.drop 4 := by
  rw [hexDigits] at h
  split at h
  · split at h
    · cases h
      exact rest_advanceBy 4 c
    · cases h
  · cases h

theorem rest_of_surrogateMark {mark : UInt8} (h : surrogateMark mark c = .ok () c') :
    c.rest = mark :: c'.rest := by
  obtain ⟨b, more, hc, hadvance, h⟩ := exists_of_take_bind (fails_refuse _) h
  dsimp only at h
  split at h
  · next hmark =>
      cases h
      rw [hc, hadvance, eq_of_beq hmark]
  · cases h

/-- Only a numeric escape begins with a backslash and its mark. -/
theorem exists_of_numericMark {more : List UInt8} (h : StringBody inner)
    (hinner : inner ++ 0x22 :: rest = 0x5C :: 0x75 :: more) :
    ∃ inner', StringBody inner' ∧ more.drop 4 = inner' ++ 0x22 :: rest := by
  cases h with
  | nil => cases hinner
  | plain hb _ =>
      obtain ⟨rfl, -⟩ := List.cons.inj hinner
      exact absurd rfl hb.2.2
  | short hmark _ =>
      obtain ⟨rfl, -⟩ := List.cons.inj (List.cons.inj hinner).2
      exact absurd hmark (by decide)
  | numeric _ _ _ _ hmore =>
      cases hinner
      exact ⟨_, hmore, rfl⟩

/-- What is left behind a numeric escape is the rest of the string, with one more escape gone if the first one
was half of a character. -/
theorem rest_of_numericEscape {bytes : List UInt8} (hinner : StringBody inner)
    (hc : c.rest.drop 4 = inner ++ 0x22 :: rest) (h : numericEscape c = .ok bytes c') :
    ∃ inner', StringBody inner' ∧ c'.rest = inner' ++ 0x22 :: rest := by
  obtain ⟨n, d, hdigits, h⟩ := bind_eq_ok.mp h
  have hd := rest_of_hexDigits hdigits
  split at h
  · cases h
  · split at h
    · obtain ⟨_, d₁, hslash, h⟩ := bind_eq_ok.mp h
      obtain ⟨_, d₂, hmark, h⟩ := bind_eq_ok.mp h
      obtain ⟨m, d₃, hdigits', h⟩ := bind_eq_ok.mp h
      -- The other half of the character stands in an escape of its own.
      have hpair : inner ++ 0x22 :: rest = 0x5C :: 0x75 :: d₂.rest := by
        rw [← hc, ← hd, rest_of_surrogateMark hslash, rest_of_surrogateMark hmark]
      obtain ⟨inner', hinner', hrest⟩ := exists_of_numericMark hinner hpair
      split at h
      · obtain ⟨-, rfl⟩ := EStateM.Result.ok.inj h
        exact ⟨inner', hinner', (rest_of_hexDigits hdigits').trans hrest⟩
      · cases h
    · cases h
      exact ⟨inner, hinner, hd.trans hc⟩

/-- An escape leaves the rest of the string, or a part of it. -/
theorem rest_of_escape {more bytes : List UInt8} (h : StringBody (0x5C :: more))
    (hc : c.rest = more ++ 0x22 :: rest) (hok : escape c = .ok bytes c') :
    ∃ inner', StringBody inner' ∧ c'.rest = inner' ++ 0x22 :: rest := by
  obtain ⟨b, left, hb, hadvance, hok⟩ := exists_of_take_bind (fails_refuse _) hok
  dsimp only at hok
  cases h with
  | plain hb _ => exact absurd rfl hb.2.2
  | @short mark inner hmark hmore =>
      obtain ⟨-, hshort⟩ := isSome_shortEscape? mark hmark
      obtain ⟨byte, hbyte⟩ := Option.isSome_iff_exists.mp hshort
      cases hc.symm.trans hb
      rw [hbyte] at hok
      cases hok
      exact ⟨inner, hmore, hadvance⟩
  | @numeric w x y z inner _ _ _ _ hmore =>
      cases hc.symm.trans hb
      exact rest_of_numericEscape hmore (by rw [hadvance]; rfl) hok

/-- What is read of a string ends with its closing quote. -/
theorem rest_of_stringBytes {bound : Bound} {reversed bytes : List UInt8} (hinner : StringBody inner)
    (hc : c.rest = inner ++ 0x22 :: rest) (h : stringBytes bound reversed c = .ok bytes c') :
    c'.rest = rest := by
  induction bound generalizing inner reversed c with
  | nil => cases h
  | cons step bound ih =>
      rw [stringBytes_cons] at h
      obtain ⟨b, more, hb, hadvance, h⟩ := exists_of_take_bind (fails_refuse _) h
      dsimp only at h
      -- Escapes of both kinds leave a string again, and the induction goes on with it.
      have hslash : ∀ more', StringBody (0x5C :: more') → more = more' ++ 0x22 :: rest →
          (escape >>= fun bytes => stringBytes bound (bytes.reverse ++ reversed)) c.advance = .ok bytes c' →
            c'.rest = rest := by
        intro more' hinner hmore h
        obtain ⟨escaped, d, hescape, h⟩ := bind_eq_ok.mp h
        obtain ⟨inner', hinner', hd⟩ := rest_of_escape hinner (hadvance.trans hmore) hescape
        exact ih hinner' hd h
      cases hinner with
      | nil =>
          cases hc.symm.trans hb
          cases h
          exact hadvance
      | plain hplain hmore =>
          cases hc.symm.trans hb
          rw [hplain.ite_eq] at h
          exact ih hmore hadvance h
      | short hmark hmore =>
          cases hc.symm.trans hb
          exact hslash _ (.short hmark hmore) rfl h
      | numeric hw hx hy hz hmore =>
          cases hc.symm.trans hb
          exact hslash _ (.numeric hw hx hy hz hmore) rfl h

/-- The bytes between quotes are read as the text, whatever stands behind them. -/
def Spells (inner : List UInt8) (s : String) : Prop :=
  ∀ rest, Reads string (inner ++ 0x22 :: rest) s rest

theorem rest_of_textOf {bytes : List UInt8} {s : String} (h : textOf bytes c = .ok s c') :
    c'.rest = c.rest := by
  rw [textOf] at h
  split at h <;> cases h
  rfl

/-- What is read from the bytes of a string is what they spell, and the quote is taken with them. -/
theorem spells_of_ok {s : String} (hinner : StringBody inner) (hc : c.rest = inner ++ 0x22 :: rest)
    (h : string c = .ok s c') : Spells inner s ∧ c'.rest = rest := by
  have hrest : c'.rest = rest := by
    obtain ⟨bytes, d, hbytes, htext⟩ := bind_eq_ok.mp h
    exact (rest_of_textOf htext).trans (rest_of_stringBytes hinner hc hbytes)
  refine ⟨fun other => ?_, hrest⟩
  have hused : c.rest = inner ++ [0x22] ++ c'.rest := by rw [hc, hrest, List.append_assoc]; rfl
  have hreads := closes_string.reads h hused other
  rwa [List.append_assoc] at hreads

/-- Bytes spell one text. -/
theorem Spells.unique {s t : String} (hs : Spells inner s) (ht : Spells inner t) : s = t := by
  obtain ⟨c, hok, -⟩ := (hs []).exists_ok (c := ⟨inner ++ [0x22], 1, 0⟩) rfl
  exact ((ht []).of_ok rfl hok).1

/-- From the text of a value the reader reads this, wherever it stands. -/
def Gives (reader : Reader α) (v : List UInt8) (a : α) : Prop :=
  ∀ before rest, visible before = v ++ rest → Reads reader before a rest

/-- What is read from the text of a value once is always read from it. -/
theorem Measured.gives {before : List UInt8} (h : Measured reader) (hv : ValueText v) (hrest : Delimits rest)
    (hbefore : visible before = v ++ rest) :
    Ensures reader before fun a after => Gives reader v a ∧ after = rest := by
  intro c a c' hc hok
  have hleft : c'.rest = rest := h.whole hv hrest hbefore c a c' hc hok
  refine ⟨fun other back hother line column => ?_, hleft⟩
  have hused : c.toToken.rest = v ++ c'.rest := by
    rw [hleft, rest_toToken, hc]
    exact hbefore
  -- The same bytes are found behind the white space of the other text.
  have hreads := h.closes.reads ((h.led c a c').mp hok) hused back
  obtain ⟨d, hread, hrest'⟩ := hreads.exists_ok (c := Cursor.toToken ⟨other, line, column⟩)
    ((rest_toToken _).trans hother)
  refine ⟨d.line, d.column, (h.led _ a _).mpr ?_⟩
  rw [hread, ← hrest']

theorem Gives.exists_ok (h : Gives reader v a) (hv : ValueText v) : ∃ c c', visible c.rest = v ++ [] ∧
    reader c = .ok a c' := by
  have hvisible : visible v = v ++ [] := by rw [← hv.visible_append, List.append_nil]
  obtain ⟨c', hok, -⟩ := (h v [] hvisible).exists_ok (c := ⟨v, 1, 0⟩) rfl
  exact ⟨⟨v, 1, 0⟩, c', hvisible, hok⟩

/-! ## Values without parts -/

theorem map_eq_ok {f : α → β} {b : β} :
    (f <$> reader) c = .ok b c' ↔ ∃ a, reader c = .ok a c' ∧ f a = b := by
  change (reader >>= fun a => pure (f a)) c = _ ↔ _
  rw [bind_eq_ok]
  constructor
  · rintro ⟨a, middle, hok, hpure⟩
    cases hpure
    exact ⟨a, hok, rfl⟩
  · rintro ⟨a, hok, rfl⟩
    exact ⟨a, c', hok, rfl⟩

theorem Measured.map (f : α → β) (h : Measured reader) : Measured (f <$> reader) where
  closes := h.closes.map f
  led c b c' := by
    rw [map_eq_ok, map_eq_ok]
    exact exists_congr fun a => and_congr_left fun _ => h.led c a c'
  whole hv hrest hbefore c b c' hc hok := by
    obtain ⟨a, hread, -⟩ := map_eq_ok.mp hok
    exact h.whole hv hrest hbefore c a c' hc hread

theorem Fails.ensures {before : List UInt8} {condition : α → List UInt8 → Prop} (h : Fails reader) :
    Ensures reader before condition :=
  fun c a c' _ hok => absurd hok (h c a c')

theorem Fails.measured (h : Fails reader) : Measured reader where
  closes := h.closes
  led _ _ _ := ⟨fun hok => absurd hok (h _ _ _), fun hok => absurd hok (h _ _ _)⟩
  whole _ _ _ := h.ensures

/-- What the first reader ensures may be assumed of the next one. -/
theorem Ensures.bind {before : List UInt8} {condition : α → List UInt8 → Prop}
    {condition' : β → List UInt8 → Prop} {next : α → Reader β} (h : Ensures reader before condition)
    (hnext : ∀ a middle, condition a middle → Ensures (next a) middle condition') :
    Ensures (reader >>= next) before condition' := by
  intro c b c' hc hok
  obtain ⟨a, middle, hfirst, hlast⟩ := bind_eq_ok.mp hok
  exact hnext a middle.rest (h c a middle hc hfirst) middle b c' rfl hlast

theorem Leaves.bind {before middle : List UInt8} {condition : β → List UInt8 → Prop} {next : α → Reader β}
    (h : Leaves reader before middle) (hnext : ∀ a, Ensures (next a) middle condition) :
    Ensures (reader >>= next) before condition :=
  Ensures.bind h fun a _ hmiddle => hmiddle ▸ hnext a

theorem Reads.ensures {before : List UInt8} (h : Reads reader before a after) :
    Ensures reader before fun a' rest => a' = a ∧ rest = after :=
  fun _ _ _ hc hok => h.of_ok hc hok

theorem Reads.leaves {before : List UInt8} (h : Reads reader before a after) : Leaves reader before after :=
  fun _ _ _ hc hok => (h.of_ok hc hok).2

theorem leaves_pure (a : α) (before : List UInt8) : Leaves (pure a : Reader α) before before :=
  (reads_pure a before).leaves

theorem leaves_word {letters : List Char} {used : List UInt8} (h : used.length = letters.length)
    (rest : List UInt8) : Leaves (word letters) (used ++ rest) rest := by
  rintro c ⟨⟩ c' hc hok
  rw [rest_of_word hok, hc, ← h, List.drop_left]

/-- A string takes its quote and leaves what stands behind it. -/
theorem leaves_string (hinner : StringBody inner) (rest : List UInt8) :
    Ensures string (inner ++ 0x22 :: rest) fun s after => Spells inner s ∧ after = rest :=
  fun _ _ _ hc hok => spells_of_ok hinner hc hok

theorem Gives.map {f : α → β} (h : Gives reader v a) : Gives (f <$> reader) v (f a) :=
  fun before rest hbefore => (h before rest hbefore).functor_map f

/-- What is made of another value is given by it. -/
theorem Measured.exists_gives {f : α → β} {b : β} (h : Measured reader) (hv : ValueText v)
    (hb : Gives (f <$> reader) v b) : ∃ a, Gives reader v a ∧ f a = b := by
  obtain ⟨c, c', hvisible, hok⟩ := hb.exists_ok hv
  obtain ⟨a, hread, heq⟩ := map_eq_ok.mp hok
  exact ⟨a, (h.gives hv delimits_nil hvisible c a c' rfl hread).1, heq⟩

/-- A reader that begins with a look at the next byte is told by what it does there. -/
theorem measured_token_bind {next : Option UInt8 → Reader α} (hcloses : Closes (token >>= next))
    (h : ∀ {b v rest}, ValueText (b :: v) → Delimits rest → Leaves (next (some b)) (b :: (v ++ rest)) rest) :
    Measured (token >>= next) where
  closes := hcloses
  led c a c' := by
    change next c.toToken.rest.head? c.toToken = _ ↔ next c.toToken.toToken.rest.head? c.toToken.toToken = _
    rw [toToken_toToken]
  whole {v rest before} hv hrest hbefore c a c' hc hok := by
    subst hc
    obtain ⟨b, more, rfl, -⟩ := hv.begins
    rw [token_bind_eq hbefore] at hok
    exact h hv hrest _ a c' ((rest_toToken c).trans hbefore) hok

/-- A word behind its first letter. -/
theorem leaves_pass_word {letters : List Char} {used : List UInt8} {next : Unit → Reader α} {b : UInt8}
    (h : used.length = letters.length) (hnext : Leaves (next ()) rest after) :
    Leaves (pass >>= fun _ => word letters >>= next) (b :: (used ++ rest)) after :=
  (reads_pass b _).leaves.bind fun _ => (leaves_word h rest).bind fun _ => hnext

theorem measured_bool : Measured bool := by
  refine measured_token_bind closes_bool fun {b v rest} hv _ => ?_
  split
  · next h => cases h
  · next h =>
      cases h
      rw [hv.of_true]
      exact leaves_pass_word rfl (leaves_pure true rest)
  · next h =>
      cases h
      rw [hv.of_false]
      exact leaves_pass_word rfl (leaves_pure false rest)
  · exact (fails_wrongType _).ensures

theorem leaves_pass_string {next : String → Reader α} (hv : ValueText (0x22 :: v))
    (hnext : ∀ s, Leaves (next s) rest after) :
    Leaves (pass >>= fun _ => string >>= next) (0x22 :: (v ++ rest)) after := by
  obtain ⟨inner, hinner, rfl⟩ := hv.of_quote
  refine (reads_pass 0x22 _).leaves.bind fun _ => ?_
  rw [List.append_assoc]
  refine (leaves_string hinner rest).bind fun s middle hmiddle => ?_
  rw [hmiddle.2]
  exact hnext s

theorem measured_text (expected : String) : Measured (text expected) := by
  refine measured_token_bind (closes_text expected) fun {b v rest} hv _ => ?_
  split
  · next h => cases h
  · next h =>
      cases h
      obtain ⟨inner, hinner, rfl⟩ := hv.of_quote
      refine (reads_pass 0x22 _).leaves.bind fun _ => ?_
      rw [List.append_assoc]
      exact fun c s c' hc hok => (leaves_string hinner rest c s c' hc hok).2
  · exact (fails_wrongType _).ensures

theorem measured_unit : Measured unit := by
  refine measured_token_bind closes_unit fun {b v rest} hv _ => ?_
  split
  · next h => cases h
  · next h =>
      cases h
      rw [hv.of_null]
      exact (reads_pass 0x6E _).leaves.bind fun _ => leaves_word rfl rest
  · exact (fails_wrongType _).ensures

/-- A value or null is read as a whole, if the value is. -/
theorem measured_nullable (h : Measured reader) : Measured (nullable reader) := by
  refine measured_token_bind (closes_nullable h.closes) fun {b v rest} hv hrest => ?_
  split
  · next h =>
      cases h
      rw [hv.of_null]
      exact leaves_pass_word rfl (leaves_pure none rest)
  · exact (h.map some).whole hv hrest (hv.visible_append rest)

end SampleTypes.Json.Reader
