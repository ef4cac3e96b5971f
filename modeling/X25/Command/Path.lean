/-! # Paths

A path is a text whose parts stand between slashes. Empty parts do not count, and neither does a
single dot, except at the start of a path that does not begin with a slash. Two paths are equal if
their parts are.
-/

namespace X25

structure Path where
  text : String
  deriving DecidableEq, Repr

namespace Path

/-- The pieces between slashes, empty ones included. -/
def pieces (p : Path) : List (List Char) :=
  p.text.toList.splitOn '/'

def isAbsolute (p : Path) : Bool :=
  p.text.toList.head? == some '/'

def isDot (piece : List Char) : Bool :=
  piece == ['.']

def isDotDot (piece : List Char) : Bool :=
  piece == ['.', '.']

/-- The pieces that are neither empty nor a single dot. -/
def parts (p : Path) : List (List Char) :=
  p.pieces.filter fun piece => !piece.isEmpty && !isDot piece

def startsWithDot (p : Path) : Bool :=
  p.pieces.head?.any isDot

def sameParts (p q : Path) : Bool :=
  p.isAbsolute == q.isAbsolute && p.startsWithDot == q.startsWithDot && p.parts == q.parts

/-- Whether the path ends with a slash, and so can only name a directory. -/
def endsWithSlash (p : Path) : Bool :=
  p.text.toList.getLast? == some '/'

/-- Cuts trailing slashes and single dots, given the text reversed. -/
def dropTrailing : List Char → List Char
  | '/' :: cs => dropTrailing cs
  | '.' :: '/' :: cs => dropTrailing cs
  | cs => cs

/-- A file name without its last dot and what follows it. A dot at the start does not count. -/
def stem (name : List Char) : List Char :=
  if name.contains '.' then
    let before := (name.reverse.dropWhile (· != '.')).tail.reverse
    if before.isEmpty then name else before
  else name

/-- The path with the last part of its file name, from the last dot on, replaced by an ending. A
path that ends in no file name stays as it is. If a single dot is all that comes before the last
one, and nothing after the name, two dots are left, which name a directory and take no ending. -/
def withExtension (p : Path) (ending : String) : Path :=
  match p.parts.getLast? with
  | some name =>
    if isDotDot name then p
    else
      let text := dropTrailing p.text.toList.reverse
      let directory := (text.drop name.length).reverse
      let isLast := text.length == p.text.length
      if isLast && isDot (stem name) then ⟨String.ofList (directory ++ ['.', '.'])⟩
      else ⟨String.ofList (directory ++ stem name ++ '.' :: ending.toList)⟩
  | none => p

end Path

end X25
