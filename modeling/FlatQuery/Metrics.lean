/-!
What a session counts.
-/

namespace FlatQuery

@[ext]
structure Metrics where
  scansExecuted : Nat := 0
  scansFailed : Nat := 0
  cursorsOpened : Nat := 0
  cursorsRewound : Nat := 0
  linesRead : Nat := 0
  rowsMalformed : Nat := 0
  rowsMatched : Nat := 0
  rowsReturned : Nat := 0
  deriving DecidableEq, Repr

namespace Metrics

def recordScan (m : Metrics) (lines malformed matched returned : Nat) : Metrics :=
  { m with
    scansExecuted := m.scansExecuted + 1
    linesRead := m.linesRead + lines
    rowsMalformed := m.rowsMalformed + malformed
    rowsMatched := m.rowsMatched + matched
    rowsReturned := m.rowsReturned + returned }

def recordFailure (m : Metrics) : Metrics :=
  { m with scansFailed := m.scansFailed + 1 }

def recordOpening (m : Metrics) : Metrics :=
  { m with cursorsOpened := m.cursorsOpened + 1 }

def recordRewinding (m : Metrics) : Metrics :=
  { m with cursorsRewound := m.cursorsRewound + 1 }

-- The counters as they are reported, in words of 64 bits that wrap around.
def reported (m : Metrics) : List (String × UInt64) :=
  [("scans_executed", .ofNat m.scansExecuted),
   ("scans_failed", .ofNat m.scansFailed),
   ("cursors_opened", .ofNat m.cursorsOpened),
   ("cursors_rewound", .ofNat m.cursorsRewound),
   ("lines_read", .ofNat m.linesRead),
   ("rows_malformed", .ofNat m.rowsMalformed),
   ("rows_matched", .ofNat m.rowsMatched),
   ("rows_returned", .ofNat m.rowsReturned)]

end Metrics
end FlatQuery
