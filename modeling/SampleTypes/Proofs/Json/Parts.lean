import SampleTypes.Proofs.Json.Measured

/-!
# Containers that are read part by part

Wherever a loop over the parts of a container has arrived, the parts that are still to come stand before it
(`Ahead`). Items are taken whole. Of a member the key is read first, and what that makes of the value is left to
the caller: a loop over members is told by what the single ones do (`Folds`), in both directions
(`ensures_members`, `reads_members`).
-/

namespace SampleTypes.Json.Reader

variable {α σ : Type} {reader : Reader α} {a : α} {v rest inner : List UInt8}

/-! ## The parts of containers -/

/-- The parts of a container that are still to come: all of them, behind its opening bracket, or the ones
after a part that has been read. -/
inductive Ahead (close : UInt8) (rest : List UInt8) : (first : Bool) → List (List UInt8) → List UInt8 → Prop
  | first {parts inner} (h : Enclosed close parts inner) : Ahead close rest true parts (inner ++ rest)
  | later {parts before} (h : visible before = following close parts ++ rest) :
      Ahead close rest false parts before

section Ahead

variable {close : UInt8} {first : Bool} {part before back : List UInt8} {parts : List (List UInt8)}

/-- Every part takes a byte at least, so a bound of this length is enough for all of them. -/
theorem Ahead.length_lt (h : Ahead close rest first parts before) : parts.length < before.length + 1 := by
  cases h with
  | first h =>
      cases h with
      | empty _ => exact Nat.succ_pos _
      | parts part parts =>
          have := length_following close parts
          simp only [List.length_append, List.length_cons]
          omega
  | later h =>
      have hle : (visible before).length ≤ before.length := (List.dropWhile_sublist _).length_le
      have := length_following close parts
      rw [h, List.length_append] at hle
      omega

/-- Behind the last part nothing but white space comes before the end. -/
theorem Ahead.visible_nil (h : Ahead close rest first [] before) (hclose : IsCloser close) :
    visible before = close :: rest := by
  cases h with
  | first h =>
      cases h with
      | empty hblanks =>
          rw [List.append_assoc, visible_append hblanks]
          exact visible_following hclose [] rest
  | later h => exact h

/-- After a part come the others. -/
theorem ahead_later (hclose : IsCloser close) (hback : Blank back) (parts : List (List UInt8)) :
    Ahead close rest false parts (back ++ (following close parts ++ rest)) :=
  .later ((visible_append hback _).trans (visible_following hclose parts rest))

theorem reads_nextItem_nil (h : Ahead 0x5D rest first [] before) :
    Reads (nextItem first) before false (0x5D :: rest) :=
  (reads_token_visible (h.visible_nil (.inl rfl))).bind (reads_pure false _)

/-- In front of a part, the reader comes to where the part begins. -/
theorem reads_nextItem_cons (h : Ahead 0x5D rest first (part :: parts) before) (hpart : Padded v part)
    (hv : ValueText v) : ∃ back, Blank back ∧
      Reads (nextItem first) before true (v ++ (back ++ (following 0x5D parts ++ rest))) := by
  obtain ⟨back, hback, -, hvisible⟩ := hpart.exists_visible hv
  refine ⟨back, hback, ?_⟩
  have hmore := hvisible (following 0x5D parts ++ rest)
  obtain ⟨b, more, rfl, hb⟩ := hv.begins
  have hne : b ≠ 0x5D := hb.ne_closer (.inl rfl)
  cases h with
  | first h =>
      cases h
      rw [← List.append_assoc] at hmore
      refine (reads_token_visible hmore).bind ?_
      split
      · next h => cases h
      · next h => exact absurd (Option.some.inj h) hne
      · exact reads_pure true _
  | later h =>
      rw [following, List.cons_append, List.append_assoc] at h
      refine (reads_token_visible h).bind ((reads_pass 0x2C _).bind ((reads_token_visible hmore).bind ?_))
      split
      · next h => cases h
      · next h => exact absurd (Option.some.inj h) hne
      · exact reads_pure true _

/-- A list is read up to its bracket, item by item. -/
theorem leaves_itemsFrom {item : Reader α} (hitem : Measured item) {vs : List (List UInt8)}
    (hparts : List.Forall₂ Padded vs parts) (hvs : ∀ v ∈ vs, ValueText v) {bound : Bound} {index : Nat}
    (hahead : Ahead 0x5D rest (index == 0) parts before) (hbound : parts.length < bound.length)
    (reversed : List α) : Leaves (itemsFrom item bound index reversed) before (0x5D :: rest) := by
  induction hparts generalizing bound index before reversed with
  | nil =>
      obtain ⟨step, bound, rfl⟩ := List.exists_cons_of_length_pos hbound
      refine (reads_nextItem_nil hahead).ensures.bind ?_
      rintro more middle ⟨rfl, rfl⟩
      exact leaves_pure _ _
  | @cons v part vs parts hpart _ ih =>
      obtain ⟨step, bound, rfl⟩ := List.exists_cons_of_length_pos (Nat.zero_lt_of_lt hbound)
      rw [List.forall_mem_cons] at hvs
      obtain ⟨back, hback, hnext⟩ := reads_nextItem_cons hahead hpart hvs.1
      refine hnext.ensures.bind ?_
      rintro more middle ⟨rfl, rfl⟩
      have hwhole := hitem.whole hvs.1 (hback.delimits (delimits_following (.inl rfl) parts rest))
        (hvs.1.visible_append _)
      have hwithin : Leaves (within (.item index) item) _ _ := fun c a c' hc hok =>
        hwhole c a c' hc ((alike_within _ item c a c').mp hok)
      refine hwithin.bind fun a => ?_
      exact ih hvs.2 (ahead_later (.inl rfl) hback parts) (Nat.lt_of_succ_lt_succ hbound) (a :: reversed)

/-! ## Keys -/

theorem reads_nextKey_nil (h : Ahead 0x7D rest first [] before) :
    Reads (nextKey first) before none (0x7D :: rest) :=
  (reads_token_visible (h.visible_nil (.inr rfl))).bind (reads_pure none _)

/-- If there is another member, its key is what decides. -/
theorem exists_nextKey_eq {m : Member} (h : Ahead 0x7D rest first (part :: parts) before)
    (hpart : m.Text part) : ∃ back middle, Blank back ∧
      Member.Remains m (back ++ (following 0x7D parts ++ rest)) middle ∧ ∀ c, c.rest = before →
        ∃ d, d.rest = m.key ++ 0x22 :: middle ∧ nextKey first c = (some <$> string) d := by
  obtain ⟨gap, front, back, hgap, hfront, hback, -, hvisible⟩ := hpart.exists_visible
  have hmore := hvisible (following 0x7D parts ++ rest)
  refine ⟨back, _, hback, ⟨gap, front, hgap, hfront, rfl⟩, fun c hc => ?_⟩
  have hrest : ∀ (d : Cursor) b more, visible d.rest = b :: more → d.toToken.advance.rest = more := by
    intro d b more hd
    rw [rest_advance, rest_toToken]
    exact congrArg List.tail hd
  -- The key comes behind its quote, and behind a comma as well if it is not the first one.
  cases h with
  | first h =>
      cases h
      rw [List.append_assoc] at hc
      have hquote := (congrArg visible hc).trans hmore
      exact ⟨c.toToken.advance, hrest c _ _ hquote, token_bind_eq hquote⟩
  | later h =>
      rw [following, List.cons_append, List.append_assoc] at h
      have hcomma := (congrArg visible hc).trans h
      have hquote := (congrArg visible (hrest c _ _ hcomma)).trans hmore
      refine ⟨c.toToken.advance.toToken.advance, hrest _ _ _ hquote, ?_⟩
      rw [nextKey, token_bind_eq hcomma]
      exact pass_token_bind_eq hquote

/-! ## Members -/

/-- States follow from one another as the members do. -/
inductive Folds (turn : σ → Member → σ → Prop) : σ → List Member → σ → Prop
  | nil (s) : Folds turn s [] s
  | cons {s middle s' m ms} (h : turn s m middle) (more : Folds turn middle ms s') : Folds turn s (m :: ms) s'

/-- From the members of an object, which have to be proper, a state follows if each member makes it so. -/
theorem ensures_membersFrom {member : σ → String → Reader σ} {turn : σ → Member → σ → Prop} {ms : List Member}
    (hturn : ∀ m ∈ ms, ∀ s key before rest, Spells m.key key → Delimits rest → m.Remains rest before →
      Ensures (member s key) before fun s' after => turn s m s' ∧ after = rest)
    (hparts : List.Forall₂ Member.Text ms parts) (hproper : ∀ m ∈ ms, StringBody m.key) {bound : Bound}
    (hahead : Ahead 0x7D rest first parts before) (hbound : parts.length < bound.length) (s : σ) :
    Ensures (membersFrom member bound first s) before fun s' after =>
      Folds turn s ms s' ∧ after = 0x7D :: rest := by
  induction hparts generalizing bound first before s with
  | nil =>
      obtain ⟨step, bound, rfl⟩ := List.exists_cons_of_length_pos hbound
      have hkey := (reads_nextKey_nil hahead).within .unreadable
      refine hkey.ensures.bind ?_
      rintro key middle ⟨rfl, rfl⟩ c s' c' hc ⟨⟩
      exact ⟨.nil s, hc⟩
  | @cons m part ms parts hpart _ ih =>
      obtain ⟨step, bound, rfl⟩ := List.exists_cons_of_length_pos (Nat.zero_lt_of_lt hbound)
      rw [List.forall_mem_cons] at hturn hproper
      obtain ⟨back, value, hback, hvalue, hnext⟩ := exists_nextKey_eq hahead hpart
      -- A key may be refused for its characters, but nothing else can be read there.
      have hkey : Ensures (within .unreadable (nextKey first)) before fun key? after =>
          ∃ key, key? = some key ∧ Spells m.key key ∧ after = value := by
        intro c key? c' hc hok
        rw [alike_within] at hok
        obtain ⟨d, hd, heq⟩ := hnext c hc
        rw [heq, map_eq_ok] at hok
        obtain ⟨key, hstring, rfl⟩ := hok
        exact ⟨key, rfl, spells_of_ok hproper.1 hd hstring⟩
      refine hkey.bind ?_
      rintro key? middle ⟨key, rfl, hspells, rfl⟩
      have hdelimits : Delimits (back ++ (following 0x7D parts ++ rest)) :=
        hback.delimits (delimits_following (.inr rfl) parts rest)
      refine (hturn.1 s key _ _ hspells hdelimits hvalue).bind ?_
      rintro s₁ middle ⟨hone, rfl⟩
      have hmore := ih hturn.2 hproper.2 (ahead_later (.inr rfl) hback parts)
        (Nat.lt_of_succ_lt_succ hbound) s₁
      exact fun c s' c' hc hok => ⟨.cons hone (hmore c s' c' hc hok).1, (hmore c s' c' hc hok).2⟩

/-- The state that follows from the members is read. -/
theorem reads_membersFrom {member : σ → String → Reader σ} {turn : σ → Member → σ → Prop} {ms : List Member}
    (hturn : ∀ m ∈ ms, ∀ s s', turn s m s' → ∃ key, Spells m.key key ∧ ∀ before rest, Delimits rest →
      m.Remains rest before → Reads (member s key) before s' rest)
    (hparts : List.Forall₂ Member.Text ms parts) {bound : Bound}
    (hahead : Ahead 0x7D rest first parts before) (hbound : parts.length < bound.length) {s s' : σ}
    (hfolds : Folds turn s ms s') : Reads (membersFrom member bound first s) before s' (0x7D :: rest) := by
  induction hparts generalizing bound first before s with
  | nil =>
      cases hfolds
      obtain ⟨step, bound, rfl⟩ := List.exists_cons_of_length_pos hbound
      exact ((reads_nextKey_nil hahead).within .unreadable).bind (reads_pure _ _)
  | @cons m part ms parts hpart _ ih =>
      cases hfolds with
      | cons hone hmore =>
          obtain ⟨step, bound, rfl⟩ :=
            List.exists_cons_of_length_pos (Nat.zero_lt_of_lt hbound)
          rw [List.forall_mem_cons] at hturn
          obtain ⟨key, hspells, hread⟩ := hturn.1 s _ hone
          obtain ⟨back, value, hback, hvalue, hnext⟩ := exists_nextKey_eq hahead hpart
          have hkey : Reads (nextKey first) before (some key) value := by
            intro line column
            obtain ⟨d, hd, heq⟩ := hnext ⟨before, line, column⟩ rfl
            obtain ⟨d', hok, hrest⟩ := ((hspells value).functor_map some).exists_ok hd
            exact ⟨d'.line, d'.column, by rw [heq, hok, ← hrest]⟩
          have hdelimits : Delimits (back ++ (following 0x7D parts ++ rest)) :=
            hback.delimits (delimits_following (.inr rfl) parts rest)
          refine (hkey.within .unreadable).bind ((hread value _ hdelimits hvalue).bind ?_)
          exact ih hturn.2 (ahead_later (.inr rfl) hback parts) (Nat.lt_of_succ_lt_succ hbound) hmore

end Ahead

/-! ## Containers -/

section Containers

variable {depth : Nat} {before middle : List UInt8} {condition : α → List UInt8 → Prop}

theorem Ensures.within (h : Ensures reader before condition) (segment : Segment) :
    Ensures (within segment reader) before condition :=
  fun c a c' hc hok => h c a c' hc ((alike_within segment reader c a c').mp hok)

theorem Ensures.placed (h : Ensures reader before condition) : Ensures (placed reader) before condition :=
  fun c a c' hc hok => h c a c' hc ((alike_placed reader c a c').mp hok)

theorem Ensures.withBound {loop : Bound → Reader α} (h : Ensures (loop (0 :: 0 :: before)) before condition) :
    Ensures (withBound loop) before condition := by
  rintro c a c' ⟨⟩ hok
  exact h c a c' rfl hok

theorem Ensures.enter {bracket : UInt8} {body : Nat → Reader α}
    (h : ∀ inner, depth = inner + 1 → Ensures (body inner) before condition) :
    Ensures (enter depth body) (bracket :: before) condition := by
  cases depth with
  | zero => exact (fails_refuseNext _).ensures
  | succ inner => exact (reads_pass bracket before).leaves.bind fun _ => h inner rfl

/-- The end of a container is met where its parts have led. -/
theorem Ensures.closing {ending : Reader Unit} {condition' : α → List UInt8 → Prop}
    (h : Ensures reader before condition)
    (hending : ∀ a middle, condition a middle → Ensures ending middle fun _ rest => condition' a rest) :
    Ensures (closing reader ending) before condition' := by
  intro c a c' hc hok
  rw [alike_closing] at hok
  refine Ensures.bind h (fun a middle ha => ?_) c a c' hc hok
  exact (hending a middle ha).bind fun _ rest hrest d b d' hd hpure => by
    cases hpure
    exact hd ▸ hrest

/-- Items take all parts and leave the bracket. -/
theorem leaves_items {item : Reader α} (hitem : Measured item) {vs parts : List (List UInt8)}
    (hparts : List.Forall₂ Padded vs parts) (hinner : Enclosed 0x5D parts inner) (hvs : ∀ v ∈ vs, ValueText v)
    (rest : List UInt8) : Leaves (items item) (inner ++ rest) (0x5D :: rest) := by
  have hahead : Ahead 0x5D rest true parts (inner ++ rest) := .first hinner
  refine Ensures.withBound (leaves_itemsFrom hitem hparts hvs hahead ?_ [])
  exact Nat.lt_succ_of_lt hahead.length_lt

/-- Whatever members make of a state, they do it turn by turn. -/
theorem ensures_members {member : σ → String → Reader σ} {turn : σ → Member → σ → Prop} {ms : List Member}
    {parts : List (List UInt8)} (hparts : List.Forall₂ Member.Text ms parts)
    (hinner : Enclosed 0x7D parts inner) (hkeys : ∀ m ∈ ms, StringBody m.key)
    (hturn : ∀ m ∈ ms, ∀ s key before rest, Spells m.key key → Delimits rest → m.Remains rest before →
      Ensures (member s key) before fun s' after => turn s m s' ∧ after = rest) (s : σ) (rest : List UInt8) :
    Ensures (members member s) (inner ++ rest) fun s' after => Folds turn s ms s' ∧ after = 0x7D :: rest := by
  have hahead : Ahead 0x7D rest true parts (inner ++ rest) := .first hinner
  refine Ensures.withBound (ensures_membersFrom hturn hparts hkeys hahead ?_ s)
  exact Nat.lt_succ_of_lt hahead.length_lt

theorem reads_members {member : σ → String → Reader σ} {turn : σ → Member → σ → Prop} {ms : List Member}
    {parts : List (List UInt8)} (hparts : List.Forall₂ Member.Text ms parts)
    (hinner : Enclosed 0x7D parts inner)
    (hturn : ∀ m ∈ ms, ∀ s s', turn s m s' → ∃ key, Spells m.key key ∧ ∀ before rest, Delimits rest →
      m.Remains rest before → Reads (member s key) before s' rest) {s s' : σ} (h : Folds turn s ms s')
    (rest : List UInt8) : Reads (members member s) (inner ++ rest) s' (0x7D :: rest) := by
  have hahead : Ahead 0x7D rest true parts (inner ++ rest) := .first hinner
  refine Reads.withBound (reads_membersFrom hturn hparts hahead ?_ h)
  exact Nat.lt_succ_of_lt hahead.length_lt

/-- A list is read as a whole, if its items are. -/
theorem measured_list {item : Nat → Reader α} (h : ∀ inner, depth = inner + 1 → Measured (item inner)) :
    Measured (list depth item) := by
  refine measured_token_bind (closes_list fun inner hinner => (h inner hinner).closes)
    fun {b v rest} hv _ => ?_
  split
  · next h => cases h
  · next h =>
      cases h
      obtain ⟨vs, parts, hparts, henclosed, hvs⟩ := hv.of_bracket
      refine Ensures.placed (Ensures.enter fun inner hinner => ?_)
      refine (leaves_items (h inner hinner) hparts henclosed hvs rest).closing ?_
      rintro as middle rfl
      exact (reads_endList rest).leaves
  · exact (fails_wrongType _).ensures

/-- What follows the key of a member is taken whole. -/
theorem ensures_memberValue {m : Member} {key : String} (hm : m.Remains rest before)
    (h : ∀ front, Blank front → Ensures reader (front ++ (m.value ++ rest)) condition) :
    Ensures (memberValue key reader) before condition := by
  obtain ⟨gap, front, hgap, hfront, rfl⟩ := hm
  have hcolon : visible (gap ++ 0x3A :: (front ++ (m.value ++ rest))) =
      0x3A :: (front ++ (m.value ++ rest)) :=
    (visible_append hgap _).trans (visible_cons rfl _)
  exact (reads_colon_visible hcolon).leaves.bind fun _ => (h front hfront).within _

/-- A value is read behind the colon, with white space on both sides of it. -/
theorem reads_memberValue {m : Member} {key : String} (hm : m.Remains rest before)
    (h : ∀ front, Blank front → Reads reader (front ++ (m.value ++ rest)) a rest) :
    Reads (memberValue key reader) before a rest := by
  obtain ⟨gap, front, hgap, hfront, rfl⟩ := hm
  have hcolon : visible (gap ++ 0x3A :: (front ++ (m.value ++ rest))) =
      0x3A :: (front ++ (m.value ++ rest)) :=
    (visible_append hgap _).trans (visible_cons rfl _)
  exact (reads_colon_visible hcolon).bind ((h front hfront).within _)

theorem visible_value {m : Member} {front : List UInt8} (hv : ValueText m.value) (hfront : Blank front) :
    visible (front ++ (m.value ++ rest)) = m.value ++ rest := by
  rw [visible_append hfront, hv.visible_append]

theorem measured_map {value : Nat → Reader α} (h : ∀ inner, depth = inner + 1 → Measured (value inner)) :
    Measured (map depth value) := by
  refine measured_token_bind (closes_map fun inner hinner => (h inner hinner).closes.peeks)
    fun {b v rest} hv _ => ?_
  split
  · next h => cases h
  · next h =>
      cases h
      obtain ⟨ms, parts, hparts, henclosed, hms⟩ := hv.of_brace
      refine Ensures.placed (Ensures.enter fun inner hinner => ?_)
      have hentry : ∀ m ∈ ms, ∀ (sofar : Entries α) key before rest, Spells m.key key → Delimits rest →
          m.Remains rest before → Ensures (do return sofar.set key (← memberValue key (value inner)))
            before fun _ after => True ∧ after = rest := by
        intro m hm sofar key before rest _ hrest hremains
        have hvalue := (hms m hm).2
        refine (ensures_memberValue hremains fun front hfront =>
          (h inner hinner).whole hvalue hrest (visible_value hvalue hfront)).bind fun a middle hmiddle => ?_
        subst hmiddle
        exact fun c a c' hc hok => ⟨trivial, leaves_pure _ _ c a c' hc hok⟩
      have hentries : Ensures (entries (value inner)) (v ++ rest) fun sofar after =>
          Folds (fun _ _ _ => True) [] ms sofar ∧ after = 0x7D :: rest :=
        ensures_members hparts henclosed (fun m hm => (hms m hm).1) hentry [] rest
      refine hentries.closing ?_
      rintro as middle ⟨-, rfl⟩
      exact (reads_endMap rest).leaves
  · exact (fails_wrongType _).ensures

theorem leaves_variantNamed (variants : List (String × α)) (name : String) (rest : List UInt8) :
    Leaves (variantNamed variants name) rest rest := by
  rw [variantNamed]
  split
  · exact leaves_pure _ rest
  · exact (fails_refuseLater _).ensures

/-- A name may be written as an object with one member. -/
theorem measured_variant (variants : List (String × α)) : Measured (variant depth variants) := by
  refine measured_token_bind (closes_variant variants) fun {b v rest} hv _ => ?_
  split
  · next h => cases h
  · next h =>
      cases h
      exact (leaves_pass_string hv fun name => leaves_variantNamed variants name rest).placed
  · next h =>
      cases h
      obtain ⟨ms, parts, hparts, henclosed, hms⟩ := hv.of_brace
      have hahead : Ahead 0x7D rest true parts (v ++ rest) := .first henclosed
      refine Ensures.enter fun inner _ => ?_
      cases hparts with
      | nil =>
          -- An object without members has no name to tell the variant.
          refine (reads_token_visible (hahead.visible_nil (.inr rfl))).ensures.bind ?_
          rintro x middle ⟨rfl, rfl⟩
          exact (fails_refuseNext _).bind.ensures
      | @cons m part ms parts hpart _ =>
          cases henclosed
          obtain ⟨gap, front, back, hgap, hfront, hback, -, hvisible⟩ := hpart.exists_visible
          obtain ⟨hkey, hvalue⟩ := hms m List.mem_cons_self
          have hdelimits := hback.delimits (delimits_following (.inr rfl) parts rest)
          rw [List.append_assoc]
          refine (reads_token_visible (hvisible _)).ensures.bind ?_
          rintro x middle ⟨rfl, rfl⟩
          refine (reads_pass 0x22 _).leaves.bind fun _ => ?_
          refine (leaves_string hkey _).placed.bind ?_
          rintro name middle ⟨-, rfl⟩
          refine Leaves.bind (leaves_variantNamed variants name _).placed fun a => ?_
          have hcolon := visible_append hgap (0x3A :: (front ++ (m.value ++ (back ++
            (following 0x7D parts ++ rest)))))
          refine (reads_colon_visible (hcolon.trans (visible_cons rfl _))).leaves.bind fun _ => ?_
          -- The value of a variant is null, and it stands between the colon and the end.
          refine Leaves.bind (Ensures.within (measured_unit.whole hvalue hdelimits
            (visible_value hvalue hfront)) _) fun _ => ?_
          have hlater := (ahead_later (.inr rfl) hback parts : Ahead 0x7D rest false parts _)
          cases parts with
          | nil =>
              exact ((reads_token_visible (hlater.visible_nil (.inr rfl))).bind
                ((reads_pass 0x7D rest).bind (reads_pure a rest))).leaves
          | cons next parts =>
              -- A second member is refused.
              have hcomma := visible_append hback (following 0x7D (next :: parts) ++ rest)
              refine (reads_token_visible (hcomma.trans (visible_cons rfl _))).ensures.bind ?_
              rintro x middle ⟨rfl, rfl⟩
              exact (fails_refuse _).bind.ensures
  · exact (fails_refuseNext _).ensures

end Containers

end SampleTypes.Json.Reader
