import X25.Text.Numeral

/-! # Screens of characters

A screen is a grid of characters, each with a colour and perhaps bold. Panels are framed parts of
a screen; what they contain is cut at the right edge and at the bottom.
-/

namespace X25

inductive Colour
  | standard | yellow | red | cyan | blue | green | magenta | white | gray
  deriving DecidableEq, Repr

structure Style where
  colour : Colour
  bold : Bool
  deriving DecidableEq, Repr

namespace Style

def plain : Style :=
  ⟨.standard, false⟩

def ofColour (c : Colour) : Style :=
  ⟨c, false⟩

def strong (c : Colour) : Style :=
  ⟨c, true⟩

/-- A letter for the colour, which is a capital for bold. -/
def letter (s : Style) : Char :=
  let c := match s.colour with
    | .standard => '.'
    | .yellow => 'y'
    | .red => 'r'
    | .cyan => 'c'
    | .blue => 'b'
    | .green => 'g'
    | .magenta => 'm'
    | .white => 'w'
    | .gray => 'd'
  if s.bold then c.toUpper else c

end Style

structure Cell where
  char : Char
  style : Style
  deriving DecidableEq, Repr

abbrev CellLine := List Cell

namespace CellLine

def write (s : Style) (text : String) : CellLine :=
  text.toList.map (⟨·, s⟩)

def fit (width : Nat) (s : Style) (l : CellLine) : CellLine :=
  (l.take width).rightpad width ⟨' ', s⟩

def text (l : CellLine) : String :=
  String.ofList ((l.map (·.char)).reverse.dropWhile (· == ' ')).reverse

def styleText (l : CellLine) : String :=
  String.ofList ((l.map (·.style.letter)).reverse.dropWhile (· == '.')).reverse

end CellLine

abbrev Screen := List CellLine

namespace Screen

def titleLine (title : String) (s : Style) (width : Nat) : CellLine :=
  CellLine.write s "┌" ++
    ((CellLine.write s title).take (width - 2)).rightpad (width - 2) ⟨'─', s⟩ ++
    CellLine.write s "┐"

def bottomLine (s : Style) (width : Nat) : CellLine :=
  CellLine.write s "└" ++ .replicate (width - 2) ⟨'─', s⟩ ++ CellLine.write s "┘"

def sideLine (s fill : Style) (width : Nat) (l : CellLine) : CellLine :=
  CellLine.write s "│" ++ l.fit (width - 2) fill ++ CellLine.write s "│"

def panel (title : String) (frame fill : Style) (width height : Nat) (lines : List CellLine) :
    Screen :=
  titleLine title frame width ::
    ((lines.take (height - 2)).rightpad (height - 2) []).map (sideLine frame fill width) ++
    [bottomLine frame width]

def beside (left right : Screen) : Screen :=
  List.zipWith (· ++ ·) left right

def rows (s : Screen) : List String :=
  s.map CellLine.text

def styleRows (s : Screen) : List String :=
  s.map CellLine.styleText

end Screen

end X25
