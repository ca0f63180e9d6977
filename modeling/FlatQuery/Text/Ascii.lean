/-!
Comparison of texts without regard to the case of ASCII letters.
-/

namespace FlatQuery.Text

-- Only the letters A to Z have a lower case here; all other characters are their own.
def caseKey (s : String) : List Char :=
  s.toList.map Char.toLower

def sameIgnoringCase (s t : String) : Bool :=
  caseKey s == caseKey t

theorem sameIgnoringCase_iff {s t : String} :
    sameIgnoringCase s t ↔ caseKey s = caseKey t := by
  simp [sameIgnoringCase]

end FlatQuery.Text
