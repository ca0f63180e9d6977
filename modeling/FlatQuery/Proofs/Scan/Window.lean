import FlatQuery.Scan.Basic

/-!
The windows that scans move through. Their pages and limits are positive.
-/

namespace FlatQuery.Window

-- A scan for a query, and the window that it leaves. The window moves even if the stream breaks.
def scan (w : Window) (schema : Schema) (delimiter : UInt8) (q : Query) (source : Source) :
    Except ReadError Scan.Output × Window :=
  let w := w.forQuery q
  ((Scan.run (.of schema delimiter q w) source).output q.countOnly, w)

-- The windows to which scans and resets can lead.
inductive Reachable : Window → Prop
  | start (defaultLimit : Nat) : Reachable (start defaultLimit)
  | reset {w} : Reachable w → Reachable w.reset
  | scan {w} (schema : Schema) (delimiter : UInt8) (q : Query) (source : Source) :
    Reachable w → Reachable (w.scan schema delimiter q source).2

structure Positive (w : Window) : Prop where
  page         : 0 < w.page
  limit        : 0 < w.limit
  defaultLimit : 0 < w.defaultLimit

theorem getD_filter_positive {o : Option Nat} {n : Nat} (h : 0 < n) :
    0 < (o.filter (0 < ·)).getD n := by
  cases o
  case none   => simpa using h
  case some m => by_cases hm : 0 < m <;> simp [Option.filter, hm, h]

namespace Positive

variable {w : Window}

theorem start (defaultLimit : Nat) : Positive (start defaultLimit) := by
  by_cases h : defaultLimit = 0
  all_goals
    simp only [Window.start, h, ↓reduceIte]
    constructor <;> simp [firstPage, usualLimit]
    all_goals omega

theorem reset (h : w.Positive) : w.reset.Positive where
  page         := Nat.one_pos
  limit        := h.defaultLimit
  defaultLimit := h.defaultLimit

theorem forQuery (h : w.Positive) (q : Query) : (w.forQuery q).Positive where
  page         := getD_filter_positive h.page
  limit        := getD_filter_positive h.limit
  defaultLimit := h.defaultLimit

end Positive

theorem Reachable.positive {w : Window} (h : w.Reachable) : w.Positive := by
  induction h
  case start           => exact .start _
  case reset hi        => exact hi.reset
  case scan q _ _ hi   => exact hi.forQuery q

end FlatQuery.Window
