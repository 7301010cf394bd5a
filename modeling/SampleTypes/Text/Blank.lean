/-!
# Blank text

White space is the Unicode property `White_Space`. A text made of nothing else is blank; the empty
text is one of them. A blank name cannot head a declaration, and a blank line holds no document.
-/

namespace SampleTypes.Text

/-- The characters with the property `White_Space`. -/
def isSpace (c : Char) : Bool :=
  let n := c.toNat
  (0x9 ≤ n && n ≤ 0xD) || n == 0x20 || n == 0x85 || n == 0xA0 || n == 0x1680 ||
    (0x2000 ≤ n && n ≤ 0x200A) || n == 0x2028 || n == 0x2029 || n == 0x202F || n == 0x205F ||
    n == 0x3000

/-- A text is blank when white space is all it has. -/
def isBlank (text : String) : Bool :=
  text.toList.all isSpace

/-- A text with a character that is no white space is not blank. -/
theorem isBlank_eq_false_of_mem {text : String} {c : Char} (hc : c ∈ text.toList)
    (hs : isSpace c = false) : isBlank text = false := by
  simp only [isBlank, List.all_eq_false]
  exact ⟨c, hc, by simp [hs]⟩

end SampleTypes.Text
