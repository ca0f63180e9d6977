import FlatQuery.Query.Basic

/-!
The window of a scan: which page of the matching records it returns, and how many make a page.
-/

namespace FlatQuery

@[ext]
structure Window where
  page : Nat
  limit : Nat
  -- The limit to which a reset goes back.
  defaultLimit : Nat
  deriving DecidableEq, Repr

namespace Window

def firstPage : Nat := 1

-- Large enough for all records of most tables.
def usualLimit : Nat := 99999

-- The window before the first scan. There is no limit of zero.
def start (defaultLimit : Nat) : Window :=
  let limit := if defaultLimit = 0 then usualLimit else defaultLimit
  ⟨firstPage, limit, limit⟩

def reset (w : Window) : Window :=
  { w with page := firstPage, limit := w.defaultLimit }

-- The window of a scan for a query. What the query does not set stays as it was.
def forQuery (w : Window) (q : Query) : Window :=
  { w with
    page := (q.page.filter (0 < ·)).getD w.page
    limit := (q.limit.filter (0 < ·)).getD w.limit }

end Window
end FlatQuery
