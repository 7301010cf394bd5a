import SampleTypes.Text.Uppercase

/-!
# What capitals are not

Capitals come from tables. A character that no table has among its capitals is in no upper-case form
except its own (`uppercase_eq_of_mem`). The tables are searched once for all the characters of a list.
-/

namespace SampleTypes.Text

/-- The capitals of the tables are none of the characters. -/
def capitalsAvoid (chars : List Char) : Bool :=
  (capitalRuns.toList.all fun run => chars.all fun d => 0 < d.toNat &&
      ((d.toNat : Int) - run.distance < run.first || run.last < (d.toNat : Int) - run.distance)) &&
    capitalSequences.toList.all fun entry => entry.2.all fun n => Char.ofNat n ∉ chars

variable {chars : List Char} {c d : Char}

/-- A capital of a run is none of the characters. -/
private theorem not_mem_of_capital? (h : capitalsAvoid chars = true) {run : CapitalRun}
    (hrun : run ∈ capitalRuns) {n : Nat} (hcapital : run.capital? n = some d) : d ∉ chars := by
  intro hmem
  rw [capitalsAvoid, Bool.and_eq_true] at h
  have hruns := List.all_eq_true.mp h.1 run (Array.mem_toList_iff.mpr hrun)
  have havoids := List.all_eq_true.mp hruns d hmem
  simp only [Bool.and_eq_true, Bool.or_eq_true, decide_eq_true_eq] at havoids
  obtain ⟨hpositive, houtside⟩ := havoids
  rw [CapitalRun.capital?] at hcapital
  split at hcapital
  · next hin =>
      simp only [Bool.and_eq_true, decide_eq_true_eq] at hin
      obtain ⟨⟨hfirst, hlast⟩, -⟩ := hin
      have hnat : (Char.ofNat (n + run.distance).toNat).toNat = d.toNat :=
        congrArg Char.toNat (Option.some.inj hcapital)
      rw [Char.ofNat] at hnat
      -- A number that is no character gives the one with number zero, which is not to be avoided.
      by_cases hvalid : (n + run.distance).toNat.isValidChar
      · rw [dif_pos hvalid] at hnat
        have hsame : (n + run.distance).toNat = d.toNat := hnat
        rcases houtside with hlow | hhigh <;> omega
      · rw [dif_neg hvalid] at hnat
        have hzero : 0 = d.toNat := hnat
        omega
  · cases hcapital

/-- One of the characters is only in the upper-case form of itself, and there it stands alone. -/
theorem uppercase_eq_of_mem (h : capitalsAvoid chars = true) (hd : d ∈ uppercase c)
    (hmem : d ∈ chars) : d = c ∧ uppercase c = [c] := by
  have heq : uppercase c = [c] := by
    unfold uppercase at hd ⊢
    split at hd
    · next capital hfound =>
        obtain ⟨run, hrun, hcapital⟩ := Array.exists_of_findSome?_eq_some hfound
        rw [List.mem_singleton.mp hd] at hmem
        exact absurd hmem (not_mem_of_capital? h hrun hcapital)
    · split at hd
      · next entry capitals hfound =>
          obtain ⟨n, hn, rfl⟩ := List.mem_map.mp hd
          rw [capitalsAvoid, Bool.and_eq_true] at h
          have hentry := Array.mem_toList_iff.mpr (Array.mem_of_find?_eq_some hfound)
          have havoids := List.all_eq_true.mp h.2 _ hentry
          exact absurd hmem (of_decide_eq_true (List.all_eq_true.mp havoids n hn))
      · rfl
  rw [heq] at hd
  exact ⟨List.mem_singleton.mp hd, heq⟩

/-- Every character has an upper-case form. -/
theorem uppercase_ne_nil (c : Char) : uppercase c ≠ [] := by
  have hall : (capitalSequences.toList.all fun entry => !entry.2.isEmpty) = true := by
    decide +kernel
  unfold uppercase
  split
  · exact List.cons_ne_nil _ _
  · split
    · next entry capitals hfound =>
        have hentry := Array.mem_toList_iff.mpr (Array.mem_of_find?_eq_some hfound)
        simpa using List.all_eq_true.mp hall _ hentry
    · exact List.cons_ne_nil _ _

end SampleTypes.Text
