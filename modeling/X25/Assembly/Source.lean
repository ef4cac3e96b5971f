import X25.Assembly.Statement
import X25.Text.Lines

/-! # Source texts

A program is assembled line by line: the words of its statements follow each other, and the first
line with an error rejects the whole text.
-/

namespace X25

/-- An error with the number of its line, counted from one. -/
structure SourceError where
  line : Nat
  cause : LineError
  deriving DecidableEq, Repr

def SourceError.message (e : SourceError) : String :=
  e.cause.message e.line

namespace Assembly

/-- The words of the line of the given number; a line without a statement has none. -/
def assembleNumbered (line : Nat) (text : List Char) : Except SourceError (Option WordPair) :=
  match Statement.ofLine text with
  | .ok s => .ok (s.map Statement.words)
  | .error e => .error ⟨line, e⟩

def assembleLine (text : String) : Except SourceError (Option WordPair) :=
  assembleNumbered 1 text.toList

def assembleLines (first : Nat) : List (List Char) → Except SourceError (List WordPair)
  | [] => .ok []
  | l :: ls => do
    let p ← assembleNumbered first l
    let ps ← assembleLines (first + 1) ls
    return p.toList ++ ps

def assemblePairs (source : String) : Except SourceError (List WordPair) :=
  assembleLines 1 (Text.lines source.toList)

/-- The words of a program text. -/
def assemble (source : String) : Except SourceError (List Word) := do
  return (← assemblePairs source).flatMap WordPair.toList

end Assembly

end X25
