import SampleTypes.Proofs.Json.Strings

/-!
# Lists and maps that are written are read back

The parts of a container are written one after the other with commas between them (`following`). The
loops of the readers take them one by one; a part that is refused ends them.

* `readsIf_items`, `readsIf_members`: the two loops, for parts that are read each on their own.
* `readsIf_list`, `readsIf_map`: lists and maps, with the depth that they take.
-/

namespace SampleTypes.Json

def bytes (value : Json) : List UInt8 :=
  utf8 value.write

/-- A string is written between quotes, each of its characters escaped. -/
theorem bytes_string (s : String) :
    (Json.string s).bytes = 0x22 :: (utf8 (s.toList.flatMap Json.escape) ++ [0x22]) := by
  rw [bytes, write, Reader.utf8_writeString]

/-- Parts after others: a comma before each of them, and the closing byte. -/
def following (close : UInt8) : List (List UInt8) → List UInt8
  | [] => [close]
  | part :: parts => 0x2C :: (part ++ following close parts)

theorem length_following (close : UInt8) (parts : List (List UInt8)) :
    parts.length < (following close parts).length := by
  induction parts with
  | nil => exact Nat.zero_lt_one
  | cons part parts ih =>
      simp only [following, List.length_cons, List.length_append]
      omega

def memberBytes (member : String × Json) : List UInt8 :=
  utf8 (writeString member.1) ++ 0x3A :: member.2.bytes

/-- Items are written one behind the other, with commas between them and a bracket at the end. -/
theorem utf8_writeItems (item : Json) (items : List Json) :
    utf8 (writeItems (item :: items)) = item.bytes ++ following 0x5D (items.map bytes) := by
  induction items generalizing item with
  | nil =>
      rw [writeItems, utf8_append]
      rfl
  | cons next items ih =>
      rw [writeItems, utf8_append, utf8_cons, ih]
      · rfl
      · exact List.cons_ne_nil next items

theorem memberBytes_eq (member : String × Json) :
    memberBytes member = utf8 (writeString member.1 ++ ':' :: member.2.write) := by
  rw [utf8_append, utf8_cons]
  rfl

theorem utf8_writeMembers (member : String × Json) (members : List (String × Json)) :
    utf8 (writeMembers (member :: members)) =
      memberBytes member ++ following 0x7D (members.map memberBytes) := by
  induction members generalizing member with
  | nil =>
      rw [writeMembers, utf8_append, memberBytes_eq]
      rfl
  | cons next members ih =>
      rw [writeMembers, utf8_append, utf8_cons, ih, memberBytes_eq member]
      · rfl
      · exact List.cons_ne_nil next members

/-- The value is written with the byte at its beginning. -/
def Opens (value : Json) (b : UInt8) : Prop :=
  ∃ rest, value.bytes = b :: rest

theorem opens_string (s : String) : (Json.string s).Opens 0x22 :=
  ⟨_, bytes_string s⟩

theorem opens_array (items : List Json) : (Json.array items).Opens 0x5B :=
  ⟨utf8 (writeItems items), by rw [bytes, write, utf8_cons]; rfl⟩

theorem opens_object (members : List (String × Json)) : (Json.object members).Opens 0x7B :=
  ⟨utf8 (writeMembers members), by rw [bytes, write, utf8_cons]; rfl⟩

namespace Reader

variable {α γ σ : Type} {after : List UInt8} {bound : Bound}

/-! ## Items -/

theorem reads_nextItem_end (first : Bool) (after : List UInt8) :
    Reads (nextItem first) (0x5D :: after) false (0x5D :: after) :=
  (reads_token rfl after).bind (reads_pure false _)

theorem reads_nextItem_first {b : UInt8} (hblank : Cursor.isBlank b = false) (hb : b ≠ 0x5D)
    (rest : List UInt8) : Reads (nextItem true) (b :: rest) true (b :: rest) := by
  refine (reads_token hblank rest).bind ?_
  split
  · next h => cases h
  · next h => exact absurd (Option.some.inj h) hb
  · exact reads_pure true _

/-- Behind an item the comma is passed, and the next one begins right after it. -/
theorem reads_nextItem_next {b : UInt8} (hblank : Cursor.isBlank b = false) (hb : b ≠ 0x5D)
    (rest : List UInt8) : Reads (nextItem false) (0x2C :: b :: rest) true (b :: rest) := by
  refine (reads_token rfl (b :: rest)).bind ?_
  refine (reads_pass 0x2C (b :: rest)).bind ((reads_token hblank rest).bind ?_)
  split
  · next h => cases h
  · next h => exact absurd (Option.some.inj h) hb
  · exact reads_pure true _

/-- The byte at which an item may begin. -/
def BeginsItem (b : UInt8) : Prop :=
  Cursor.isBlank b = false ∧ b ≠ 0x5D

section Items

variable {item : Reader α} {toJson : α → Json} {condition : α → Prop}

/-- Items after others. -/
theorem readsIf_itemsFrom_following {as : List α}
    (hitem : ∀ a ∈ as, ∀ after, ReadsIf (condition a) item ((toJson a).bytes ++ after) a after)
    (hopens : ∀ a ∈ as, ∃ b, BeginsItem b ∧ (toJson a).Opens b) (hbound : as.length < bound.length)
    (index : Nat) (reversed : List α) :
    ReadsIf (∀ a ∈ as, condition a) (itemsFrom item bound (index + 1) reversed)
      (following 0x5D (as.map (bytes ∘ toJson)) ++ after) (reversed.reverse ++ as)
      (0x5D :: after) := by
  -- Every turn takes one of the bound's steps, and every item left has a byte of its own.
  induction as generalizing bound index reversed with
  | nil =>
      cases bound with
      | nil => exact absurd hbound (Nat.not_lt_zero _)
      | cons step bound =>
          rw [List.append_nil]
          refine Reads.readsIf ?_ (List.forall_mem_nil _)
          exact (reads_nextItem_end _ after).bind (reads_pure reversed.reverse _)
  | cons a as ih =>
      rw [List.forall_mem_cons] at hitem hopens
      cases bound with
      | nil => exact absurd hbound (Nat.not_lt_zero _)
      | cons step bound =>
          obtain ⟨b, hb, rest, hrest⟩ := hopens.1
          let more := following 0x5D (as.map (bytes ∘ toJson)) ++ after
          have hnext : Reads (nextItem (index + 1 == 0))
              (following 0x5D ((a :: as).map (bytes ∘ toJson)) ++ after) true
              ((toJson a).bytes ++ more) := by
            rw [List.map_cons, following, List.cons_append, List.append_assoc,
              Function.comp_apply, hrest, List.cons_append]
            exact reads_nextItem_next hb.1 hb.2 _
          have hmore := ih hitem.2 hopens.2 (Nat.lt_of_succ_lt_succ hbound) (index + 1)
            (a :: reversed)
          rw [List.reverse_cons, List.append_assoc] at hmore
          have hone := (hitem.1 more).within (.item (index + 1))
          exact (hnext.bind_readsIf (hone.bind hmore)).congr (List.forall_mem_cons).symm

/-- The items of a list that was written, up to its bracket. -/
theorem readsIf_items {as : List α}
    (hitem : ∀ a ∈ as, ∀ after, ReadsIf (condition a) item ((toJson a).bytes ++ after) a after)
    (hopens : ∀ a ∈ as, ∃ b, BeginsItem b ∧ (toJson a).Opens b) :
    ReadsIf (∀ a ∈ as, condition a) (items item) (utf8 (writeItems (as.map toJson)) ++ after) as
      (0x5D :: after) := by
  apply ReadsIf.withBound
  cases as with
  | nil =>
      refine Reads.readsIf ?_ (List.forall_mem_nil _)
      exact (reads_nextItem_end true after).bind (reads_pure [] _)
  | cons a as =>
      rw [List.forall_mem_cons] at hitem hopens
      obtain ⟨b, hb, rest, hrest⟩ := hopens.1
      let more := following 0x5D (as.map (bytes ∘ toJson)) ++ after
      have hfirst : Reads (nextItem true) ((toJson a).bytes ++ more) true
          ((toJson a).bytes ++ more) := by
        rw [hrest, List.cons_append]
        exact reads_nextItem_first hb.1 hb.2 _
      have hbound : as.length < (0 :: ((toJson a).bytes ++ more)).length := by
        have := length_following 0x5D (as.map (bytes ∘ toJson))
        simp only [more, List.length_map, List.length_cons, List.length_append] at this ⊢
        omega
      have hone := (hitem.1 more).within (.item 0)
      rw [List.map_cons, utf8_writeItems, List.append_assoc, List.map_map]
      refine (hfirst.bind_readsIf (hone.bind ?_)).congr (List.forall_mem_cons).symm
      exact readsIf_itemsFrom_following hitem.2 hopens.2 hbound 0 [a]

end Items

/-! ## Members -/

theorem reads_nextKey_end (first : Bool) (after : List UInt8) :
    Reads (nextKey first) (0x7D :: after) none (0x7D :: after) :=
  (reads_token rfl after).bind (reads_pure none _)

/-- A key, once the cursor is at its quote. -/
theorem reads_key (key : String) (after : List UInt8) :
    Reads (do pass; some <$> string) (utf8 (writeString key) ++ after) (some key) after := by
  rw [utf8_writeString, List.cons_append, List.append_assoc]
  exact (reads_pass 0x22 _).bind ((reads_string key after).functor_map some)

theorem reads_nextKey_first (key : String) (after : List UInt8) :
    Reads (nextKey true) (utf8 (writeString key) ++ after) (some key) after := by
  have hkey := reads_key key after
  rw [utf8_writeString, List.cons_append] at hkey ⊢
  exact (reads_token rfl _).bind hkey

theorem reads_nextKey_next (key : String) (after : List UInt8) :
    Reads (nextKey false) (0x2C :: (utf8 (writeString key) ++ after)) (some key) after := by
  have hkey := reads_key key after
  rw [utf8_writeString, List.cons_append] at hkey ⊢
  exact (reads_token rfl _).bind ((reads_pass 0x2C _).bind ((reads_token rfl _).bind hkey))

theorem reads_colon (after : List UInt8) : Reads colon (0x3A :: after) () after :=
  (reads_token rfl after).bind (reads_pass 0x3A after)

theorem ReadsIf.memberValue {condition : Prop} {value : Reader α} {before : List UInt8} {a : α}
    (h : ReadsIf condition value before a after) (key : String) :
    ReadsIf condition (memberValue key value) (0x3A :: before) a after :=
  (reads_colon before).bind_readsIf (h.within (.key key))

section Members

variable {member : σ → String → Reader σ} {text : γ → String × Json} {condition : γ → Prop}
  {step : σ → γ → σ} {good : σ → List γ → Prop}

/-- What makes a loop over members read what was written: in a good state, the next member is read as
a step, and the state stays good for the members that are left. -/
structure ReadsMembers (member : σ → String → Reader σ) (text : γ → String × Json)
    (condition : γ → Prop) (step : σ → γ → σ) (good : σ → List γ → Prop) : Prop where
  next : ∀ {s m ms}, good s (m :: ms) → good (step s m) ms
  reads : ∀ {s m ms}, good s (m :: ms) → ∀ after,
    ReadsIf (condition m) (member s (text m).1) (0x3A :: (text m).2.bytes ++ after) (step s m) after

/-- One turn of the loop, whether or not a comma stands before the key. -/
theorem ReadsMembers.turn (h : ReadsMembers member text condition step good) {s : σ} {m : γ}
    {ms : List γ} (hs : good s (m :: ms)) {first : Bool} {before rest : List UInt8} {final : σ}
    {allowed : UInt8}
    (hkey : Reads (nextKey first) before (some (text m).1) (0x3A :: (text m).2.bytes ++ rest))
    (hmore : ReadsIf (∀ other ∈ ms, condition other) (membersFrom member bound false (step s m)) rest final
      after) :
    ReadsIf (∀ other ∈ m :: ms, condition other) (membersFrom member (allowed :: bound) first s) before
      final after := by
  have hone := h.reads hs rest
  exact ((hkey.within .unreadable).bind_readsIf (hone.bind hmore)).congr (List.forall_mem_cons).symm

/-- Members after others. -/
theorem ReadsMembers.following (h : ReadsMembers member text condition step good) {s : σ}
    {ms : List γ} (hs : good s ms) (hbound : ms.length < bound.length) :
    ReadsIf (∀ other ∈ ms, condition other) (membersFrom member bound false s)
      (following 0x7D (ms.map (memberBytes ∘ text)) ++ after) (ms.foldl step s) (0x7D :: after) := by
  induction ms generalizing bound s with
  | nil =>
      cases bound with
      | nil => exact absurd hbound (Nat.not_lt_zero _)
      | cons allowed bound =>
          refine Reads.readsIf ?_ (List.forall_mem_nil _)
          exact ((reads_nextKey_end false after).within .unreadable).bind (reads_pure s _)
  | cons m ms ih =>
      cases bound with
      | nil => exact absurd hbound (Nat.not_lt_zero _)
      | cons allowed bound =>
          have hmore := ih (h.next hs) (Nat.lt_of_succ_lt_succ hbound)
          refine h.turn hs ?_ hmore
          rw [List.map_cons, Json.following, List.cons_append, Function.comp_apply, memberBytes,
            List.append_assoc, List.append_assoc]
          exact reads_nextKey_next (text m).1 _

/-- The members of a map that was written, up to its brace. -/
theorem ReadsMembers.members (h : ReadsMembers member text condition step good) {s : σ}
    {ms : List γ} (hs : good s ms) (after : List UInt8) :
    ReadsIf (∀ other ∈ ms, condition other) (members member s)
      (utf8 (writeMembers (ms.map text)) ++ after) (ms.foldl step s) (0x7D :: after) := by
  apply ReadsIf.withBound
  cases ms with
  | nil =>
      refine Reads.readsIf ?_ (List.forall_mem_nil _)
      exact ((reads_nextKey_end true after).within .unreadable).bind (reads_pure s _)
  | cons m ms =>
      have hlength := length_following 0x7D (ms.map (memberBytes ∘ text))
      rw [List.length_map] at hlength
      rw [List.map_cons, utf8_writeMembers, memberBytes, List.map_map, List.append_assoc,
        List.append_assoc]
      refine h.turn hs (reads_nextKey_first (text m).1 _) (h.following (h.next hs) ?_)
      simp only [List.length_cons, List.length_append]
      omega

end Members

/-! ## Lists and maps -/

theorem reads_endList (after : List UInt8) : Reads endList (0x5D :: after) () after :=
  (reads_token rfl after).bind (reads_pass 0x5D after)

theorem reads_endMap (after : List UInt8) : Reads endMap (0x7D :: after) () after :=
  (reads_token rfl after).bind (reads_pass 0x7D after)

end Reader

end SampleTypes.Json
