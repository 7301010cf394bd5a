import SampleTypes.Build
import SampleTypes.Proofs.Files.Follow
import SampleTypes.Proofs.Outcomes

/-!
# Reading back what is written

Names that lead to a file, or to where one can be made, pass it only at their end: a walk through it would need
a directory there. So putting a file where they lead does not turn them aside (`follow_put`), and a file that is
written is read back (`read_write`).
-/

namespace SampleTypes.Files

variable {files after : Files} {path : String} {bytes : List UInt8} {start location other : Location}
  {node : Node} {names : List String} {entries : List (Location × Node)}

/-! ## A node at a location -/

/-- Puts a node in the place of those at a location. -/
abbrev replaced (location : Location) (node : Node) (entry : Location × Node) : Location × Node :=
  if entry.1 == location then (location, node) else entry

theorem find?_replaced_self (h : entries.any (·.1 == location) = true) :
    (entries.map (replaced location node)).find? (·.1 == location) = some (location, node) := by
  induction entries with
  | nil => cases h
  | cons entry entries ih =>
      rw [List.map_cons]
      by_cases hentry : (entry.1 == location) = true
      · rw [replaced, if_pos hentry, List.find?_cons_of_pos (by simp)]
      · rw [List.any_cons, eq_false_of_ne_true hentry, Bool.false_or] at h
        rw [replaced, if_neg hentry, List.find?_cons, eq_false_of_ne_true hentry, ih h]

theorem find?_replaced_of_ne (h : other ≠ location) :
    (entries.map (replaced location node)).find? (·.1 == other) = entries.find? (·.1 == other) := by
  induction entries with
  | nil => rfl
  | cons entry entries ih =>
      rw [List.map_cons, List.find?_cons, List.find?_cons, ih]
      by_cases hentry : (entry.1 == location) = true
      · have hold : (entry.1 == other) = false := by simpa [beq_iff_eq.mp hentry] using Ne.symm h
        have hnew : (location == other) = false := by simpa using Ne.symm h
        rw [replaced, if_pos hentry, hold, hnew]
      · rw [replaced, if_neg hentry]

/-- What is put at a location is the node there. -/
theorem node?_put_self (h : location ≠ []) : (files.put location node).node? location = some node := by
  rw [node?, if_neg (by simpa using h), put]
  split
  · next hthere => rw [find?_replaced_self hthere, Option.map_some]
  · next hthere =>
      have hnone : files.nodes.find? (·.1 == location) = none := by
        rw [List.find?_eq_none]
        exact fun entry hmem hentry => hthere (List.any_eq_true.mpr ⟨entry, hmem, hentry⟩)
      rw [List.find?_append, hnone]
      simp

theorem node?_put_of_ne (h : other ≠ location) :
    (files.put location node).node? other = files.node? other := by
  rw [node?, node?, put]
  split
  · rfl
  · split
    · rw [find?_replaced_of_ne h]
    · rw [List.find?_append]
      simp [Ne.symm h]

theorem here_put : (files.put location node).here = files.here := by
  rw [put]
  split <;> rfl

/-! ## Following names to a file -/

/-- Where names lead to a file, or to where one may be made, that is what is there. -/
theorem node?_of_follow (h : files.follow start .directory names = .ok (.found location (.file bytes))) :
    files.node? location = some (.file bytes) ∧ location ≠ [] := by
  induction names generalizing start with
  | nil => simp [follow] at h
  | cons name names ih =>
      rw [follow] at h
      split at h
      · exact ih h
      · split at h
        · exact ih h
        · split at h
          · cases h
          · split at h
            · next found hfound =>
                cases found with
                | directory => exact ih h
                | file other =>
                    cases names with
                    | nil =>
                        rw [follow, Except.ok.injEq, Target.found.injEq] at h
                        obtain ⟨rfl, hbytes⟩ := h
                        exact ⟨hbytes ▸ hfound, by simp⟩
                    | cons next names => cases h
            · split at h <;> simp at h

/-- A vacant location holds no node, and it is not the root. -/
theorem node?_of_follow_vacant (h : files.follow start .directory names = .ok (.vacant location)) :
    files.node? location = none ∧ location ≠ [] := by
  induction names generalizing start with
  | nil => simp [follow] at h
  | cons name names ih =>
      rw [follow] at h
      split at h
      · exact ih h
      · split at h
        · exact ih h
        · split at h
          · cases h
          · split at h
            · next found hfound =>
                cases found with
                | directory => exact ih h
                | file other => cases names <;> simp [follow] at h
            · next hnone =>
                split at h
                · rw [Except.ok.injEq, Target.vacant.injEq] at h
                  exact ⟨h ▸ hnone, by simp [← h]⟩
                · cases h

/-- The names lead to a file, or to where one can be made. -/
def LeadsToFile (files : Files) (start : Location) (names : List String) (location : Location) : Prop :=
  (∃ old, files.follow start .directory names = .ok (.found location (.file old))) ∨
    files.follow start .directory names = .ok (.vacant location) ∧ names.getLast? ≠ some ""

theorem LeadsToFile.ne_nil (h : files.LeadsToFile start names location) : location ≠ [] := by
  rcases h with ⟨old, h⟩ | ⟨h, -⟩
  · exact (node?_of_follow h).2
  · exact (node?_of_follow_vacant h).2

/-- A directory on the way to the file is elsewhere. -/
theorem LeadsToFile.ne (h : files.LeadsToFile start names location)
    (hother : files.node? other = some .directory) : other ≠ location := by
  rintro rfl
  rcases h with ⟨old, h⟩ | ⟨h, -⟩
  · rw [(node?_of_follow h).1] at hother
    cases hother
  · rw [(node?_of_follow_vacant h).1] at hother
    cases hother

/-- Behind its first name, a way to a file goes on from where that name leads. -/
theorem LeadsToFile.tail {name : String} (h : files.LeadsToFile start (name :: names) location)
    (heq : files.follow start .directory (name :: names) = files.follow other .directory names) :
    files.LeadsToFile other names location := by
  rw [LeadsToFile, heq] at h
  refine h.imp_right (And.imp_right fun hlast => ?_)
  cases names with
  | nil => simp
  | cons next names => rwa [List.getLast?_cons_cons] at hlast

/-- A name of what is in the directory, if anything is. -/
theorem follow_cons {name : String} (hidle : ¬(name.isEmpty || name == ".") = true)
    (habove : ¬(name == "..") = true) (hsize : ¬name.utf8ByteSize > nameLimit) :
    files.follow start .directory (name :: names) =
      match files.node? (start ++ [name]) with
      | some node => files.follow (start ++ [name]) node names
      | none => if names.all (·.isEmpty) then .ok (.vacant (start ++ [name])) else .error .missing := by
  rw [follow]
  exact (if_neg hidle).trans ((if_neg habove).trans (if_neg hsize))

/-- Where no directory is on the way, the way ends. -/
theorem LeadsToFile.last {name : String} (h : files.LeadsToFile start (name :: names) location)
    (hidle : ¬(name.isEmpty || name == ".") = true) (habove : ¬(name == "..") = true)
    (hsize : ¬name.utf8ByteSize > nameLimit) (hnode : files.node? (start ++ [name]) ≠ some .directory) :
    names = [] ∧ location = start ++ [name] := by
  rw [LeadsToFile, follow_cons hidle habove hsize] at h
  split at h
  · next found hfound =>
      cases found with
      | directory => exact absurd hfound hnode
      | file old => cases names <;> simp_all [follow]
  · split at h
    · next hempty =>
        obtain ⟨old, h⟩ | ⟨h, hlast⟩ := h
        · cases h
        · rw [Except.ok.injEq, Target.vacant.injEq] at h
          refine ⟨?_, h.symm⟩
          by_contra hne
          -- the last name is one of those that are empty
          have hmem := List.getLast_mem hne
          have hlastEmpty : names.getLast hne = "" := by
            simpa using List.all_eq_true.mp hempty _ hmem
          obtain ⟨next, rest, rfl⟩ := List.exists_cons_of_ne_nil hne
          rw [List.getLast?_cons_cons, List.getLast?_eq_some_getLast hne, hlastEmpty] at hlast
          exact hlast rfl
    · simp at h

/-- Names that lead to where a file may be made lead to it once it is there. -/
theorem follow_put (h : files.LeadsToFile start names location) (bytes : List UInt8) :
    (files.put location (.file bytes)).follow start .directory names =
      .ok (.found location (.file bytes)) := by
  induction names generalizing start with
  | nil => simp [LeadsToFile, follow] at h
  | cons name names ih =>
      by_cases hidle : (name.isEmpty || name == ".") = true
      · rw [follow, if_pos hidle]
        exact ih (h.tail (by rw [follow, if_pos hidle]))
      by_cases habove : (name == "..") = true
      · rw [follow, if_neg hidle, if_pos habove]
        exact ih (h.tail (by rw [follow, if_neg hidle, if_pos habove]))
      by_cases hlong : name.utf8ByteSize > nameLimit
      · rw [LeadsToFile, follow, if_neg hidle, if_neg habove, if_pos hlong] at h
        simp at h
      rw [follow_cons hidle habove hlong]
      -- A directory on the way stays what it is; else the name is the last one, and the file is put there.
      by_cases hnode : files.node? (start ++ [name]) = some .directory
      · have htail : files.LeadsToFile (start ++ [name]) names location :=
          h.tail (by rw [follow_cons hidle habove hlong, hnode])
        rw [node?_put_of_ne (htail.ne hnode), hnode]
        exact ih htail
      · obtain ⟨rfl, rfl⟩ := h.last hidle habove hlong hnode
        rw [node?_put_self h.ne_nil]
        rfl

/-! ## Writing -/

/-- A path can be written to if it is short enough, without a zero byte, and leads to a file or a vacant
location. -/
theorem writable_eq_ok (h : files.writable path = .ok location) :
    (path ≠ "" ∧ '\x00' ∉ path.toList ∧ path.utf8ByteSize ≤ pathLimit) ∧
      files.LeadsToFile (if Path.isAbsolute path then [] else files.here) (Path.names path) location := by
  rw [writable] at h
  split at h
  · split at h <;> cases h
  · next hslash =>
      split at h
      · next found bytes hlocate =>
          cases h
          obtain ⟨husable, hfollow⟩ := locate_eq_ok_iff.mp hlocate
          exact ⟨husable, .inl ⟨bytes, hfollow⟩⟩
      · cases h
      · next found hlocate =>
          cases h
          obtain ⟨husable, hfollow⟩ := locate_eq_ok_iff.mp hlocate
          refine ⟨husable, .inr ⟨hfollow, fun hlast => hslash ?_⟩⟩
          exact beq_iff_eq.mpr ((Path.getLast?_names hlast).resolve_left husable.1)
      · cases h

/-- **A file that is written is read back.** -/
theorem read_write (h : write path bytes files = .ok () after) : after.read path = .ok bytes := by
  rw [write] at h
  split at h
  · next location hwritable =>
      cases h
      obtain ⟨husable, hleads⟩ := writable_eq_ok hwritable
      rw [read_eq_ok_iff]
      refine ⟨location, locate_eq_ok_iff.mpr ⟨husable, ?_⟩⟩
      rw [here_put]
      exact follow_put hleads bytes
  · cases h

/-- What has been delivered is read back from its path. -/
theorem read_deliver {text : String} (h : deliver path text files = .ok () after) :
    after.read path = .ok text.toUTF8.toList := by
  have hwrite : ∃ middle, faultAt path (write path text.toUTF8.toList) middle = .ok () after := by
    rw [deliver] at h
    cases hparent : Path.parent? path with
    | none =>
        rw [hparent] at h
        exact ⟨files, h⟩
    | some above =>
        rw [hparent] at h
        by_cases hempty : (!above.isEmpty) = true
        · simp only [if_pos hempty] at h
          obtain ⟨-, middle, -, hwrite⟩ := estate_bind_eq_ok.mp h
          exact ⟨middle, hwrite⟩
        · simp only [if_neg hempty] at h
          exact ⟨files, h⟩
  obtain ⟨middle, hwrite⟩ := hwrite
  rw [faultAt] at hwrite
  split at hwrite
  · next hok =>
      cases hwrite
      exact read_write hok
  · cases hwrite

end SampleTypes.Files
