import FlatQuery.Row.Lines
import FlatQuery.Schema
import FlatQuery.Text.Utf8

/-!
The cells of a row. A cell whose first byte is a quote is quoted: up to its closing quote it may
hold delimiters and line breaks, and a quote in it is written twice.
-/

namespace FlatQuery.Row

-- Where the reader of cells is: at the first byte of a cell, in one that is not quoted, in one that
-- is, or behind a quote that closes it unless another one follows.
inductive Place
  | start
  | bare
  | quoted
  | closed
  deriving DecidableEq, Repr

def isBreak (b : UInt8) : Bool :=
  b == cr || b == lf

-- Adds a byte to the first cell.
def push (b : UInt8) : List (List UInt8) → List (List UInt8)
  | [] => [[b]]
  | cell :: cells => (b :: cell) :: cells

-- The cells from a place inside of a record up to its end. The first of them is the rest of the
-- cell at this place. A line break outside of a quoted cell ends the record.
def cellsFrom (delimiter : UInt8) (place : Place) : List UInt8 → List (List UInt8)
  | [] => [[]]
  | b :: bytes =>
    match place with
    | .start =>
      if b = quote then cellsFrom delimiter .quoted bytes
      else if b = delimiter then [] :: cellsFrom delimiter .start bytes
      else if isBreak b then [[]]
      else push b (cellsFrom delimiter .bare bytes)
    | .bare =>
      if b = delimiter then [] :: cellsFrom delimiter .start bytes
      else if isBreak b then [[]]
      else push b (cellsFrom delimiter .bare bytes)
    | .quoted =>
      if b = quote then cellsFrom delimiter .closed bytes
      else push b (cellsFrom delimiter .quoted bytes)
    | .closed =>
      if b = quote then push b (cellsFrom delimiter .quoted bytes)
      else if b = delimiter then [] :: cellsFrom delimiter .start bytes
      else if isBreak b then [[]]
      else push b (cellsFrom delimiter .bare bytes)

def byteOrderMark : List UInt8 :=
  [0xEF, 0xBB, 0xBF]

def dropMark (row : List UInt8) : List UInt8 :=
  if byteOrderMark.isPrefixOf row then row.drop byteOrderMark.length else row

-- The first record in the text of a row. A byte order mark and line breaks before it do not count.
-- Where there is none it is one empty cell.
def rawCells (delimiter : UInt8) (row : List UInt8) : List (List UInt8) :=
  match (dropMark row).dropWhile isBreak with
  | [] => [[]]
  | row => cellsFrom delimiter .start row

-- The text of a cell.
def cellText (cell : List UInt8) : String :=
  trimQuotes (.ofList (Text.Utf8.decodeLossy cell))

def split (delimiter : UInt8) (row : List UInt8) : List String :=
  (rawCells delimiter row).map cellText

end FlatQuery.Row
