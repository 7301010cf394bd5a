import Mathlib.Data.Finset.Card
import Mathlib.Data.Finset.Range
import SampleTypes.Naming
import SampleTypes.Proofs.Text.Uppercase
import SampleTypes.Shape.Kind

/-!
# Names that declarations get

What a name is made to be: free (`fresh_not_mem`), by the least number that makes it so (`due_claim`), not
blank (`isBlank_claim`), and none of the labels that kinds of values have (`ofLabel?_claim`). The last one
holds for the names of nested declarations whatever the keys are, as capitalising leaves no text that begins
with a small letter (`not_beginsSmall_claim`).
-/

namespace SampleTypes.Naming

variable {taken : List String} {name : String}

/-! ## Free names -/

/-- A number is appended in decimal digits. -/
theorem toList_numbered (name : String) (number : Nat) :
    (numbered name number).toList = name.toList ++ Nat.toDigits 10 number := by
  rw [numbered, String.toList_append, Nat.toString_eq_repr, Nat.toList_repr]

/-- Different numbers make different names. -/
theorem numbered_injective (name : String) : Function.Injective (numbered name) := by
  intro a b h
  have hdigits : Nat.toDigits 10 a = Nat.toDigits 10 b := by
    have hlist := congrArg String.toList h
    rwa [toList_numbered, toList_numbered, List.append_right_inj] at hlist
  rw [← @Nat.ofDigitChars_ten_toDigits a, hdigits, Nat.ofDigitChars_ten_toDigits]

/-- The search ends at a free number, or has seen that all its numbers are taken. -/
theorem firstFree_spec (taken : List String) (name : String) (bound number : Nat) :
    numbered name (firstFree taken name bound number) ∉ taken ∨
      ∀ k < bound, numbered name (number + k) ∈ taken := by
  induction bound generalizing number with
  | zero => exact .inr fun k hk => absurd hk (Nat.not_lt_zero k)
  | succ bound ih =>
      rw [firstFree]
      by_cases hmem : numbered name number ∈ taken
      · rw [if_pos (List.contains_iff_mem.mpr hmem)]
        refine (ih (number + 1)).imp_right fun hall k hk => ?_
        cases k with
        | zero => exact hmem
        | succ k =>
            have := hall k (Nat.lt_of_succ_lt_succ hk)
            rwa [Nat.add_assoc, Nat.add_comm 1 k] at this
      · rw [if_neg (by simpa using hmem)]
        exact .inl hmem

/-- Among more numbers than there are names taken, one gives a name that is free. -/
theorem exists_free (taken : Finset String) (name : String) (number : Nat) :
    ∃ k ≤ taken.card, numbered name (number + k) ∉ taken := by
  let tried := (Finset.range (taken.card + 1)).image fun k => numbered name (number + k)
  have hinjective : Function.Injective fun k => numbered name (number + k) := by
    intro a b h
    exact Nat.add_left_cancel (numbered_injective name h)
  have hcard : tried.card = taken.card + 1 := by
    rw [Finset.card_image_of_injective _ hinjective, Finset.card_range]
  have hlt : taken.card < tried.card := hcard ▸ Nat.lt_succ_self _
  obtain ⟨other, hother, hfree⟩ := Finset.exists_mem_notMem_of_card_lt_card hlt
  obtain ⟨k, hk, rfl⟩ := Finset.mem_image.mp hother
  exact ⟨k, Nat.le_of_lt_succ (Finset.mem_range.mp hk), hfree⟩

/-- A fresh name is free: not all of the numbers that are tried can be taken. -/
theorem fresh_not_mem (taken : List String) (name : String) : fresh taken name ∉ taken := by
  by_cases hmem : name ∈ taken
  · rw [fresh, if_pos (List.contains_iff_mem.mpr hmem)]
    rcases firstFree_spec taken name (taken.length + 1) 2 with hfree | hall
    · exact hfree
    · obtain ⟨k, hk, hfree⟩ := exists_free taken.toFinset name 2
      have hlt : k < taken.length + 1 := Nat.lt_succ_of_le (hk.trans taken.toFinset_card_le)
      exact absurd (List.mem_toFinset.mpr (hall k hlt)) hfree
  · rw [fresh, if_neg (by simpa using hmem)]
    exact hmem

/-- A fresh name is the one wished for, perhaps with a number. -/
theorem fresh_eq (taken : List String) (name : String) :
    fresh taken name = name ∨ ∃ number, fresh taken name = numbered name number := by
  rw [fresh]
  split
  · exact .inr ⟨_, rfl⟩
  · exact .inl rfl

theorem claim_disambiguate (taken : List String) (name : String) :
    claim .disambiguate taken name = fresh taken name := rfl

/-- What holds of a wished name and of all its numbered forms holds of the claimed name. -/
theorem claim_induction {motive : String → Prop} (policy : Collision) (taken : List String)
    (plain : motive name) (number : ∀ n, motive (numbered name n)) :
    motive (claim policy taken name) := by
  cases policy with
  | preserve => exact plain
  | disambiguate =>
      rw [claim_disambiguate]
      rcases fresh_eq taken name with h | ⟨n, h⟩
      · rw [h]
        exact plain
      · rw [h]
        exact number n

/-! ## The name that is due -/

/-- The name that is due to a wish. Where names give way, a wish that is taken gets the least number from two
on that makes it free; any other wish comes true. -/
def Due : Collision → (taken : List String) → (wish name : String) → Prop
  | .preserve, _, wish, name => name = wish
  | .disambiguate, taken, wish, name =>
    if wish ∈ taken then
      ∃ number ≥ 2, name = numbered wish number ∧ name ∉ taken ∧
        ∀ k, 2 ≤ k → k < number → numbered wish k ∈ taken
    else
      name = wish

/-- All that counts of the names that are taken is which ones they are. -/
theorem Due.congr {policy : Collision} {other : List String} {wish : String}
    (h : Due policy taken wish name)
    (hmem : policy = .disambiguate → ∀ name, name ∈ taken ↔ name ∈ other) :
    Due policy other wish name := by
  cases policy with
  | preserve => exact h
  | disambiguate =>
      simp only [Due, hmem rfl] at h ⊢
      exact h

/-- The search passes over no number that is free. -/
theorem firstFree_least (taken : List String) (name : String) (bound number : Nat) :
    number ≤ firstFree taken name bound number ∧
      ∀ k, number ≤ k → k < firstFree taken name bound number → numbered name k ∈ taken := by
  induction bound generalizing number with
  | zero => exact ⟨Nat.le_refl number, fun k hle hlt => absurd hlt (Nat.not_lt_of_le hle)⟩
  | succ bound ih =>
      rw [firstFree]
      split
      · next hmem =>
          obtain ⟨hle, hall⟩ := ih (number + 1)
          refine ⟨Nat.le_of_succ_le hle, fun k hk hlt => ?_⟩
          rcases Nat.eq_or_lt_of_le hk with rfl | hk
          · exact List.contains_iff_mem.mp hmem
          · exact hall k hk hlt
      · exact ⟨Nat.le_refl number, fun k hle hlt => absurd hlt (Nat.not_lt_of_le hle)⟩

/-- What is claimed is the name that is due. -/
theorem due_claim (policy : Collision) (taken : List String) (wish : String) :
    Due policy taken wish (claim policy taken wish) := by
  cases policy with
  | preserve => rfl
  | disambiguate =>
      rw [claim_disambiguate, Due]
      have hfree := fresh_not_mem taken wish
      split
      · next hmem =>
          rw [fresh, if_pos (List.contains_iff_mem.mpr hmem)] at hfree ⊢
          obtain ⟨hle, hall⟩ := firstFree_least taken wish (taken.length + 1) 2
          exact ⟨_, hle, rfl, hfree, hall⟩
      · next hmem => rw [fresh, if_neg (by simpa using hmem)]

/-! ## Names are not blank -/

/-- A candidate is never blank: there is a name to fall back to. -/
theorem isBlank_candidate (wish : Option String) : Text.isBlank (candidate wish) = false := by
  cases wish with
  | none => decide
  | some name =>
      rw [candidate]
      split
      · decide
      · next h => exact Bool.eq_false_iff.mpr h

theorem isBlank_numbered (h : Text.isBlank name = false) (number : Nat) :
    Text.isBlank (numbered name number) = false := by
  rw [Text.isBlank, List.all_eq_false] at h
  obtain ⟨c, hc, hs⟩ := h
  refine Text.isBlank_eq_false_of_mem (c := c) ?_ (Bool.eq_false_iff.mpr hs)
  rw [toList_numbered]
  exact List.mem_append_left _ hc

theorem isBlank_claim (policy : Collision) (taken : List String) (wish : Option String) :
    Text.isBlank (claim policy taken (candidate wish)) = false :=
  claim_induction (motive := fun name => Text.isBlank name = false) policy taken
    (isBlank_candidate wish) (isBlank_numbered (isBlank_candidate wish))

/-! ## Names are not labels of kinds -/

/-- A name with a number ends in a digit, and no kind's label has one. -/
theorem ofLabel?_numbered (name : String) (number : Nat) :
    TypeKind.ofLabel? (numbered name number) = none := by
  have hdigit : ∃ c ∈ (numbered name number).toList, c.isDigit = true := by
    rw [toList_numbered]
    obtain ⟨c, hc⟩ := List.exists_mem_of_ne_nil _ (Nat.toDigits_ne_nil (n := number) (b := 10))
    exact ⟨c, List.mem_append_right _ hc,
      Nat.isDigit_of_mem_toDigits (by decide) (Nat.le_refl 10) hc⟩
  obtain ⟨c, hc, hd⟩ := hdigit
  rw [TypeKind.ofLabel?, List.find?_eq_none]
  intro kind _ hlabel
  have hnone : kind.label.toList.any Char.isDigit = false := by
    cases kind <;> decide
  rw [← eq_of_beq hlabel] at hc
  exact List.any_eq_false.mp hnone c hc hd

/-- A wish that is no label is not made one. -/
theorem ofLabel?_candidate {wish : Option String}
    (h : ∀ name, wish = some name → TypeKind.ofLabel? name = none) :
    TypeKind.ofLabel? (candidate wish) = none := by
  cases wish with
  | none => decide
  | some name =>
      rw [candidate]
      split
      · decide
      · exact h name rfl

/-- A number does not make a label of a name. -/
theorem ofLabel?_claim (policy : Collision) (taken : List String)
    (h : TypeKind.ofLabel? name = none) :
    TypeKind.ofLabel? (claim policy taken name) = none :=
  claim_induction (motive := fun name => TypeKind.ofLabel? name = none) policy taken h
    (ofLabel?_numbered name)

/-! ## Names do not begin small -/

/-- The name begins with a small letter from `a` to `z`. -/
def BeginsSmall (name : String) : Prop :=
  ∃ c, name.toList.head? = some c ∧ c.isLower = true

def smallLetters : List Char :=
  (List.range' 97 26).map Char.ofNat

theorem bounds_of_isLower {c : Char} (h : c.isLower = true) : 97 ≤ c.toNat ∧ c.toNat ≤ 122 :=
  ((Bool.and_eq_true _ _).mp h).imp of_decide_eq_true of_decide_eq_true

theorem mem_smallLetters {c : Char} (h : c.isLower = true) : c ∈ smallLetters := by
  refine List.mem_map.mpr ⟨c.toNat, ?_, Char.ofNat_toNat c⟩
  obtain ⟨hlow, hhigh⟩ := bounds_of_isLower h
  rw [List.mem_range'_1]
  exact ⟨hlow, Nat.lt_succ_of_le hhigh⟩

/-- No capital is a small letter. -/
private theorem capitalsAvoid_smallLetters : Text.capitalsAvoid smallLetters = true := by
  decide +kernel

/-- Labels of kinds begin small. -/
theorem beginsSmall_label (kind : TypeKind) : BeginsSmall kind.label := by
  cases kind <;> exact ⟨_, rfl, by decide⟩

/-- All labels begin with a small letter. -/
theorem ofLabel?_of_not_beginsSmall (h : ¬BeginsSmall name) : TypeKind.ofLabel? name = none := by
  rw [TypeKind.ofLabel?, List.find?_eq_none]
  intro kind _ hlabel
  exact h (eq_of_beq hlabel ▸ beginsSmall_label kind)

/-- No upper-case form begins with a small letter, as each of these has a capital. -/
theorem head?_uppercase (c : Char) :
    ∃ d, (Text.uppercase c).head? = some d ∧ d.isLower = false := by
  have hcapitals : smallLetters.all (fun d => Text.uppercase d != [d]) = true := by
    decide +kernel
  obtain ⟨d, rest, hform⟩ := List.exists_cons_of_ne_nil (Text.uppercase_ne_nil c)
  have hd : d ∈ Text.uppercase c := hform ▸ List.mem_cons_self
  refine ⟨d, by rw [hform, List.head?_cons], Bool.eq_false_iff.mpr fun hsmall => ?_⟩
  have hmem := mem_smallLetters hsmall
  obtain ⟨rfl, halone⟩ := Text.uppercase_eq_of_mem capitalsAvoid_smallLetters hd hmem
  exact bne_iff_ne.mp (List.all_eq_true.mp hcapitals d hmem) halone

/-- Capitalizing leaves no small letter in front. -/
theorem head?_capitalizeFrom (c : Char) (rest : List Char) :
    ∃ d, (capitalizeFrom true (c :: rest)).head? = some d ∧ d.isLower = false := by
  rw [capitalizeFrom]
  split
  · exact ⟨' ', rfl, by decide⟩
  · obtain ⟨d, hd, hnot⟩ := head?_uppercase c
    refine ⟨d, ?_, hnot⟩
    rw [if_pos rfl, List.head?_append, hd, Option.some_or]

/-- Whatever the fields are called, the name they lead to does not begin small: it begins with the first
character of a capitalised key, which need not be the first key, as keys may be empty. -/
theorem not_beginsSmall_derived (chain : List String) : ¬BeginsSmall (derived chain) := by
  induction chain with
  | nil =>
      rintro ⟨d, hd, -⟩
      cases hd
  | cons key chain ih =>
      rintro ⟨d, hd, hsmall⟩
      have hlist : (derived (key :: chain)).toList =
          capitalizeFrom true key.toList ++ (derived chain).toList := by
        rw [derived, derived, List.map_cons, String.join_cons, String.toList_append, capitalize,
          String.toList_ofList]
      rw [hlist, List.head?_append] at hd
      cases hkey : key.toList with
      | nil =>
          rw [hkey, capitalizeFrom] at hd
          exact ih ⟨d, hd, hsmall⟩
      | cons c rest =>
          obtain ⟨e, he, hnot⟩ := head?_capitalizeFrom c rest
          rw [hkey, he, Option.some_or] at hd
          rw [Option.some.inj hd, hsmall] at hnot
          cases hnot

theorem not_beginsSmall_candidate {wish : Option String}
    (h : ∀ name, wish = some name → ¬BeginsSmall name) : ¬BeginsSmall (candidate wish) := by
  have hfallback : ¬BeginsSmall fallback := by
    rintro ⟨c, hc, hsmall⟩
    cases hc
    cases hsmall
  cases wish with
  | none => exact hfallback
  | some name =>
      rw [candidate]
      split
      · exact hfallback
      · exact h name rfl

theorem not_beginsSmall_numbered (h : ¬BeginsSmall name) (number : Nat) :
    ¬BeginsSmall (numbered name number) := by
  rintro ⟨c, hc, hsmall⟩
  rw [toList_numbered, List.head?_append] at hc
  cases hname : name.toList.head? with
  | some d =>
      rw [hname, Option.some_or] at hc
      exact h ⟨c, hname.trans hc, hsmall⟩
  | none =>
      rw [hname, Option.none_or] at hc
      have hdigit := Nat.isDigit_of_mem_toDigits (by decide) (Nat.le_refl 10) (List.mem_of_head? hc)
      simp only [Char.isDigit, Bool.and_eq_true, decide_eq_true_eq] at hdigit
      exact absurd (Nat.le_trans (bounds_of_isLower hsmall).1 hdigit.2) (by decide)

/-- The name that a nested declaration gets does not begin small. -/
theorem not_beginsSmall_claim (policy : Collision) (taken chain : List String) :
    ¬BeginsSmall (claim policy taken (candidate (some (derived chain)))) := by
  have hcandidate : ¬BeginsSmall (candidate (some (derived chain))) := by
    refine not_beginsSmall_candidate fun name hname => ?_
    rw [← Option.some.inj hname]
    exact not_beginsSmall_derived chain
  exact claim_induction (motive := fun name => ¬BeginsSmall name) policy taken hcandidate
    (not_beginsSmall_numbered hcandidate)

/-- Whatever the fields are called, the name they lead to is no label of a kind. -/
theorem ofLabel?_derived (chain : List String) : TypeKind.ofLabel? (derived chain) = none :=
  ofLabel?_of_not_beginsSmall (not_beginsSmall_derived chain)

/-! ## Where the characters of names come from -/

variable {chars : List Char} {c : Char}

/-- Characters that no capital maps to are only there if they were there before. -/
theorem mem_of_mem_capitalizeFrom (h : Text.capitalsAvoid chars = true) {text : List Char}
    {start : Bool} (hc : c ∈ capitalizeFrom start text) (hmem : c ∈ chars) : c ∈ text := by
  induction text generalizing start with
  | nil =>
      rw [capitalizeFrom] at hc
      exact hc
  | cons d rest ih =>
      rw [capitalizeFrom] at hc
      split at hc
      · next hspace =>
          rcases List.mem_cons.mp hc with rfl | hc
          · exact List.mem_cons.mpr (.inl (eq_of_beq hspace).symm)
          · exact List.mem_cons_of_mem _ (ih hc)
      · split at hc
        · rcases List.mem_append.mp hc with hc | hc
          · obtain ⟨rfl, -⟩ := Text.uppercase_eq_of_mem h hc hmem
            exact List.mem_cons_self
          · exact List.mem_cons_of_mem _ (ih hc)
        · rcases List.mem_cons.mp hc with rfl | hc
          · exact List.mem_cons_self
          · exact List.mem_cons_of_mem _ (ih hc)

/-- A character that capitals avoid is in a name only if it is in one of the fields that lead there. -/
theorem exists_of_mem_derived (h : Text.capitalsAvoid chars = true) {chain : List String}
    (hc : c ∈ (derived chain).toList) (hmem : c ∈ chars) : ∃ key ∈ chain, c ∈ key.toList := by
  rw [derived, String.toList_join, List.mem_flatMap] at hc
  obtain ⟨word, hword, hc⟩ := hc
  obtain ⟨key, hkey, rfl⟩ := List.mem_map.mp hword
  rw [capitalize, String.toList_ofList] at hc
  exact ⟨key, hkey, mem_of_mem_capitalizeFrom h hc hmem⟩

/-- The characters of a candidate are those of the wish, or of the name to fall back to. -/
theorem mem_of_mem_candidate {wish : Option String} (hc : c ∈ (candidate wish).toList) :
    c ∈ fallback.toList ∨ ∃ name, wish = some name ∧ c ∈ name.toList := by
  cases wish with
  | none => exact .inl hc
  | some name =>
      rw [candidate] at hc
      split at hc
      · exact .inl hc
      · exact .inr ⟨name, rfl, hc⟩

/-- What is claimed adds nothing but digits to the wish. -/
theorem mem_of_mem_claim (policy : Collision) (taken : List String) :
    c ∈ (claim policy taken name).toList → c ∈ name.toList ∨ c.isDigit = true := by
  refine claim_induction (motive := fun claimed => c ∈ claimed.toList → _) policy taken .inl ?_
  intro number hc
  rw [toList_numbered] at hc
  refine (List.mem_append.mp hc).imp_right fun hdigit => ?_
  exact Nat.isDigit_of_mem_toDigits (by decide) (Nat.le_refl 10) hdigit

end SampleTypes.Naming
