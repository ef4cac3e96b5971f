/-! # Lines of a text

A line ends at a line feed, or at a carriage return followed by one; a carriage return elsewhere
belongs to its line. After the last line end there is a line only if something stands there.
-/

namespace X25.Text

/-- The piece before a line feed, without the carriage return at its end. -/
def dropReturn (piece : List Char) : List Char :=
  if piece.getLast? = some '\r' then piece.dropLast else piece

def linesOfPieces : List (List Char) → List (List Char)
  | [] => []
  | [last] => if last.isEmpty then [] else [last]
  | piece :: rest => dropReturn piece :: linesOfPieces rest

def lines (cs : List Char) : List (List Char) :=
  linesOfPieces (cs.splitOn '\n')

end X25.Text
