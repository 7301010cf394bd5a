import Mathlib.Algebra.Group.Nat.Defs
import Mathlib.Logic.Relation
import SampleTypes.Proofs.Naming

/-!
# The search for a free name

A name that is taken is tried with one number after the other, from two on. Each round of the search adds
what it tries to the names that are taken, and there is another round if it was among them already
(`Search.Round`). Nothing in this bounds the rounds. They come to an end all the same
(`Search.wellFounded_round`), as only finitely many names are taken, and they do so early: with the name
itself among those names, one of as many numbers as there are names is free (`exists_free_of_mem`). What the
rounds end with is the name that `Naming.claim` yields (`claims_iff`).

Numbers may be of any type that counts. With whole numbers a search goes on as long as it has to; one that
counts in 32 bits goes through the same rounds unless more than two thousand million names are taken
(`Search.reaches_word_iff`).
-/

namespace SampleTypes

/-! ## Rounds -/

/-- Where a search for a free name stands: the names that are taken, and the number that is tried next. -/
structure Search (ν : Type) where
  taken : Finset String
  number : ν

namespace Search

section Rounds

variable {ν : Type} [ToString ν] {name : String} {search later : Search ν}

def form (search : Search ν) (name : String) : String :=
  name ++ toString search.number

/-- The names that are taken once a form has been tried. -/
def tried (search : Search ν) (name : String) : Finset String :=
  insert (search.form name) search.taken

/-- To try a form that is taken leaves the names as they are. -/
theorem tried_of_mem (h : search.form name ∈ search.taken) : search.tried name = search.taken :=
  Finset.insert_eq_of_mem h

variable [OfNat ν 1] [Add ν]

/-- A round with another one behind it: what it tried was taken before. -/
inductive Round (name : String) (search : Search ν) : Search ν → Prop
  | again (h : search.form name ∈ search.taken) :
      Round name search ⟨search.tried name, search.number + 1⟩

/-- The search comes from one point to another by any number of rounds. -/
def Reaches (name : String) (search later : Search ν) : Prop :=
  Relation.ReflTransGen (Round name) search later

/-- A search does not change what is taken. -/
theorem Reaches.taken_eq (h : search.Reaches name later) : later.taken = search.taken := by
  induction h with
  | refl => rfl
  | tail _ hround ih =>
      cases hround with
      | again hmem => rw [tried_of_mem hmem, ih]

end Rounds

end Search

/-- How a name is claimed by a program that counts in numbers of some type, and which names are taken then: it
is claimed as it is, unless it is taken, and else with the number that the search ends at. -/
inductive Claims (ν : Type) [OfNat ν 1] [OfNat ν 2] [Add ν] [ToString ν] (taken : Finset String)
    (wish : String) : String → Finset String → Prop
  | plain (h : wish ∉ taken) : Claims ν taken wish wish (insert wish taken)
  | numbered {last : Search ν} (h : wish ∈ taken)
      (hreaches : Search.Reaches wish ⟨taken, 2⟩ last)
      (hfree : last.form wish ∉ last.taken) :
      Claims ν taken wish (last.form wish) (last.tried wish)

namespace Naming

variable {name : String} {taken : Finset String}

theorem numbered_ne (name : String) (number : Nat) : numbered name number ≠ name := by
  intro h
  have hdigits := congrArg String.toList h
  rw [toList_numbered, List.append_right_eq_self] at hdigits
  exact Nat.toDigits_ne_nil hdigits

/-- If the name itself is taken, there is one name less to take its numbered forms. -/
theorem exists_free_of_mem (h : name ∈ taken) :
    ∃ number, 2 ≤ number ∧ number ≤ taken.card + 1 ∧ numbered name number ∉ taken := by
  obtain ⟨k, hk, hfree⟩ := exists_free (taken.erase name) name 2
  have hpos : 0 < taken.card := Finset.card_pos.mpr ⟨name, h⟩
  rw [Finset.card_erase_of_mem h] at hk
  refine ⟨2 + k, by omega, by omega, ?_⟩
  intro hmem
  exact hfree (Finset.mem_erase.mpr ⟨numbered_ne name _, hmem⟩)

end Naming

namespace Search

/-! ## Searches end -/

variable {name : String} {search later : Search Nat} {taken : Finset String} {number : Nat}

/-- **Every search ends**, wherever it begins. -/
theorem wellFounded_round (name : String) :
    WellFounded fun later earlier : Search Nat => earlier.Round name later := by
  constructor
  intro search
  obtain ⟨k, -, hfree⟩ := Naming.exists_free search.taken name search.number
  -- The induction is on how far away a free number is. Rounds come nearer to it and do not take it.
  induction k generalizing search with
  | zero =>
      constructor
      intro later hround
      cases hround with
      | again hmem => exact absurd hmem hfree
  | succ k ih =>
      constructor
      intro later hround
      cases hround with
      | again hmem =>
          apply ih
          rw [tried_of_mem hmem]
          show Naming.numbered name (search.number + 1 + k) ∉ search.taken
          rwa [Nat.add_assoc, Nat.add_comm 1 k]

/-- A search passes the numbers whose forms are taken, and no others. -/
theorem reaches_iff : Reaches name ⟨taken, number⟩ later ↔
    later.taken = taken ∧ number ≤ later.number ∧
      ∀ k, number ≤ k → k < later.number → Naming.numbered name k ∈ taken := by
  constructor
  · intro h
    refine ⟨h.taken_eq, ?_⟩
    induction h with
    | refl => exact ⟨Nat.le_refl _, fun k hle hlt => absurd hlt (Nat.not_lt_of_le hle)⟩
    | @tail search _ hreaches hround ih =>
        obtain ⟨hle, hall⟩ := ih
        cases hround with
        | again hmem =>
            refine ⟨Nat.le_succ_of_le hle, fun k hk hlt => ?_⟩
            -- The numbers that were passed, and the one that this round passes.
            rcases Nat.lt_succ_iff_lt_or_eq.mp hlt with hlt | rfl
            · exact hall k hk hlt
            · rw [Reaches.taken_eq hreaches] at hmem
              exact hmem
  · obtain ⟨laterTaken, laterNumber⟩ := later
    rintro ⟨rfl, hle, hall⟩
    induction laterNumber, hle using Nat.le_induction with
    | base => exact .refl
    | succ last hle ih =>
        have hmem : (Search.mk laterTaken last).form name ∈ laterTaken :=
          hall last hle (Nat.lt_succ_self _)
        have hreaches := ih fun k hk hlt => hall k hk (Nat.lt_succ_of_lt hlt)
        have hround : Round name ⟨laterTaken, last⟩ ⟨_, last + 1⟩ := .again hmem
        have htried : (Search.mk laterTaken last).tried name = laterTaken := tried_of_mem hmem
        rw [htried] at hround
        exact hreaches.tail hround

/-- The numbers of a search are not greater than the number of names that are taken, and one. -/
theorem Reaches.number_le (h : Reaches name ⟨taken, 2⟩ later) (hmem : name ∈ taken) :
    later.number ≤ taken.card + 1 := by
  obtain ⟨-, -, hall⟩ := reaches_iff.mp h
  obtain ⟨free, hle, hbound, hfree⟩ := Naming.exists_free_of_mem hmem
  by_contra hlt
  exact hfree (hall free hle (by omega))

/-- A search ends at one point only. -/
theorem Reaches.eq_of_free {last other : Search Nat} (h : Reaches name ⟨taken, number⟩ last)
    (hfree : last.form name ∉ last.taken) (hother : Reaches name ⟨taken, number⟩ other)
    (hotherFree : other.form name ∉ other.taken) : last = other := by
  obtain ⟨lastTaken, lastNumber⟩ := last
  obtain ⟨otherTaken, otherNumber⟩ := other
  obtain ⟨rfl, hle, hall⟩ := reaches_iff.mp h
  obtain ⟨rfl, hotherLe, hotherAll⟩ := reaches_iff.mp hother
  -- Of two different points, the later one would have passed the free form of the earlier one.
  rcases Nat.lt_trichotomy lastNumber otherNumber with hlt | rfl | hlt
  · exact absurd (hotherAll _ hle hlt) hfree
  · rfl
  · exact absurd (hall _ hotherLe hlt) hotherFree

end Search

/-! ## Names that are claimed -/

section Claims

variable {taken : List String} {wish name : String} {after : Finset String}

/-- For a wish that is taken, the search comes to the number that is due, and ends there. -/
theorem exists_last (h : wish ∈ taken) : ∃ number, 2 ≤ number ∧
    Search.Reaches wish ⟨taken.toFinset, 2⟩ ⟨taken.toFinset, number⟩ ∧
    Naming.numbered wish number ∉ taken.toFinset ∧
    Naming.claim .disambiguate taken wish = Naming.numbered wish number := by
  have hdue := Naming.due_claim .disambiguate taken wish
  rw [Naming.Due, if_pos h] at hdue
  obtain ⟨number, hle, hname, hfree, hall⟩ := hdue
  refine ⟨number, hle, Search.reaches_iff.mpr ⟨rfl, hle, ?_⟩, ?_, hname⟩
  · intro k hk hlt
    exact List.mem_toFinset.mpr (hall k hk hlt)
  · rwa [List.mem_toFinset, ← hname]

/-- What is claimed by a search is the name that is due, and it is taken from then on. -/
theorem claims_iff : Claims Nat taken.toFinset wish name after ↔
    name = Naming.claim .disambiguate taken wish ∧ after = insert name taken.toFinset := by
  by_cases hmem : wish ∈ taken
  · obtain ⟨number, -, hreaches, hfree, hname⟩ := exists_last hmem
    have hused : wish ∈ taken.toFinset := List.mem_toFinset.mpr hmem
    let last : Search Nat := ⟨taken.toFinset, number⟩
    rw [hname]
    constructor
    · intro hclaims
      cases hclaims with
      | plain hnot => exact absurd hused hnot
      | numbered _ hlast hlastFree =>
          -- A search stops at the first free number, so both have stopped at the same one.
          cases hlast.eq_of_free hlastFree hreaches hfree
          exact ⟨rfl, rfl⟩
    · rintro ⟨rfl, rfl⟩
      show Claims Nat taken.toFinset wish (last.form wish) (last.tried wish)
      exact .numbered hused hreaches hfree
  · have hfree : wish ∉ taken.toFinset := fun hused => hmem (List.mem_toFinset.mp hused)
    rw [Naming.claim_of_not_mem hmem]
    constructor
    · intro hclaims
      cases hclaims with
      | plain _ => exact ⟨rfl, rfl⟩
      | numbered hused _ _ => exact absurd hused hfree
    · rintro ⟨rfl, rfl⟩
      exact .plain hfree

end Claims

/-! ## Counting in 32 bits -/

namespace Search

variable {name : String} {search : Search Nat} {later : Search Int32}

def word (search : Search Nat) : Search Int32 :=
  ⟨search.taken, Int32.ofNat search.number⟩

/-- Small numbers are the same as machine words. -/
theorem toInt_number_word (h : search.number < 2 ^ 31) :
    search.word.number.toInt = (search.number : Int) := by
  apply Int32.toInt_ofNat_of_lt
  omega

theorem form_word (h : search.number < 2 ^ 31) (name : String) :
    search.word.form name = search.form name := by
  have hnumber : toString search.word.number = toString search.number := by
    show toString search.word.number.toInt = _
    rw [toInt_number_word h]
    rfl
  rw [form, form, hnumber]

/-- So the search tries the same names with them. -/
theorem tried_word (h : search.number < 2 ^ 31) (name : String) :
    search.word.tried name = search.tried name := by
  rw [tried, tried, form_word h]
  rfl

/-- A round in 32 bits is a round in whole numbers. -/
theorem round_word_iff (h : search.number < 2 ^ 31) : search.word.Round name later ↔
    ∃ next : Search Nat, search.Round name next ∧ later = next.word := by
  have hnext : Search.mk (search.word.tried name) (search.word.number + 1) =
      word ⟨search.tried name, search.number + 1⟩ := by
    rw [tried_word h]
    exact congrArg (Search.mk _) (Int32.ofNat_add search.number 1).symm
  constructor
  · intro hround
    cases hround with
    | again hmem =>
        rw [form_word h] at hmem
        exact ⟨_, .again hmem, hnext⟩
  · rintro ⟨next, hround, rfl⟩
    cases hround with
    | again hmem =>
        rw [← hnext]
        apply Round.again
        rwa [form_word h]

/-- As long as no number leaves the range, counting in 32 bits makes no difference. -/
theorem reaches_word_iff (h : ∀ next, search.Reaches name next → next.number < 2 ^ 31) :
    search.word.Reaches name later ↔ ∃ next, search.Reaches name next ∧ later = next.word := by
  constructor
  · intro hreaches
    induction hreaches with
    | refl => exact ⟨search, .refl, rfl⟩
    | tail _ hround ih =>
        obtain ⟨next, hnext, rfl⟩ := ih
        obtain ⟨last, hlast, rfl⟩ := (round_word_iff (h next hnext)).mp hround
        exact ⟨last, hnext.tail hlast, rfl⟩
  · rintro ⟨next, hreaches, rfl⟩
    induction hreaches with
    | refl => exact .refl
    | @tail next last hnext hround ih =>
        exact ih.tail ((round_word_iff (h next hnext)).mpr ⟨last, hround, rfl⟩)

end Search

section Word

variable {taken after : Finset String} {wish name : String} {next : Search Nat}
  {later : Search Int32}

/-- With few enough names taken, no search comes to the greatest number of 32 bits. -/
theorem Search.Reaches.number_lt (h : Reaches wish ⟨taken, 2⟩ next) (hmem : wish ∈ taken)
    (hcard : taken.card < 2 ^ 31 - 2) : next.number + 1 < 2 ^ 31 := by
  have hle := h.number_le hmem
  omega

/-- A search in 32 bits comes to the numbers that a search in whole numbers comes to. -/
theorem Search.reaches_two_iff (hcard : taken.card < 2 ^ 31 - 2) (hmem : wish ∈ taken) :
    Reaches wish ⟨taken, 2⟩ later ↔
      ∃ next : Search Nat, Reaches wish ⟨taken, 2⟩ next ∧ later = next.word := by
  have hstart : Search.mk taken (2 : Int32) = word ⟨taken, 2⟩ := rfl
  rw [hstart]
  apply reaches_word_iff
  intro next hnext
  exact Nat.lt_of_succ_lt (hnext.number_lt hmem hcard)

/-- A search in 32 bits never counts beyond the greatest number. -/
theorem Search.toInt_number_add_one (hcard : taken.card < 2 ^ 31 - 2) (hmem : wish ∈ taken)
    (hreaches : Reaches wish ⟨taken, 2⟩ later) :
    (later.number + 1).toInt = later.number.toInt + 1 := by
  obtain ⟨next, hnext, rfl⟩ := (reaches_two_iff hcard hmem).mp hreaches
  have hlt := hnext.number_lt hmem hcard
  have hsum : next.word.number + 1 = (word ⟨next.taken, next.number + 1⟩).number :=
    (Int32.ofNat_add next.number 1).symm
  rw [hsum, toInt_number_word hlt, toInt_number_word (Nat.lt_of_succ_lt hlt)]
  rfl

/-- With few enough names taken, the same name is claimed in 32 bits. -/
theorem claims_word_iff (hcard : taken.card < 2 ^ 31 - 2) :
    Claims Int32 taken wish name after ↔ Claims Nat taken wish name after := by
  constructor
  · intro hclaims
    cases hclaims with
    | plain hnot => exact .plain hnot
    | numbered hmem hreaches hfree =>
        obtain ⟨next, hnext, rfl⟩ := (Search.reaches_two_iff hcard hmem).mp hreaches
        have hlt := Nat.lt_of_succ_lt (hnext.number_lt hmem hcard)
        rw [Search.form_word hlt] at hfree ⊢
        rw [Search.tried_word hlt]
        exact .numbered hmem hnext hfree
  · intro hclaims
    cases hclaims with
    | plain hnot => exact .plain hnot
    | @numbered last hmem hreaches hfree =>
        have hlt := Nat.lt_of_succ_lt (hreaches.number_lt hmem hcard)
        rw [← Search.form_word hlt] at hfree ⊢
        rw [← Search.tried_word hlt]
        exact .numbered hmem ((Search.reaches_two_iff hcard hmem).mpr ⟨last, hreaches, rfl⟩) hfree

end Word

end SampleTypes
