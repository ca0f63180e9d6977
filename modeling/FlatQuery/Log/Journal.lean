import FlatQuery.Log.Entry

/-!
A log in which only entries of a certain severity are kept.
-/

namespace FlatQuery.Log

@[ext]
structure Journal where
  threshold : Severity
  entries : List Entry := []
  deriving DecidableEq, Repr

namespace Journal

def keeps (j : Journal) (severity : Severity) : Bool :=
  j.threshold.rank ≤ severity.rank

def addAll (j : Journal) (es : List Entry) : Journal :=
  { j with entries := j.entries ++ es.filter (j.keeps ·.severity) }

def add (j : Journal) (e : Entry) : Journal :=
  j.addAll [e]

-- Reports an event with its own severity.
def report (j : Journal) (event : Event) (fields : List (String × String)) : Journal :=
  j.add ⟨event.severity, event.name, fields⟩

end Journal
end FlatQuery.Log
