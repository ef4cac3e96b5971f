/-! # Letters of either case

Names are compared without regard to the case of the twenty-six basic letters, and shown in capitals
or with small letters after the first.
-/

namespace X25.Text

/-- Whether two texts agree but for the case of basic letters. -/
def sameLetters (s t : String) : Bool :=
  s.toList.map Char.toUpper == t.toList.map Char.toUpper

/-- Leaves the first character and makes basic letters after it small. -/
def titled (s : String) : String :=
  match s.toList with
  | [] => ""
  | c :: cs => String.ofList (c :: cs.map Char.toLower)

theorem sameLetters_iff {s t : String} :
    sameLetters s t = true ↔ s.toList.map Char.toUpper = t.toList.map Char.toUpper := by
  simp [sameLetters]

end X25.Text
