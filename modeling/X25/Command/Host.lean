import X25.Command.FileTree

/-! # The world of a command

What commands need of their surroundings: files, two streams of text to write and one to read.
Besides the real one there is a model, in which files stand in a tree. There only what stands in the
tree makes a write fail, and a write is done as a whole or not at all.
-/

namespace X25

class Host (m : Type → Type) where
  readFile : Path → m (Except FileError (List UInt8))
  writeFile : Path → List UInt8 → m (Except FileError Unit)
  print : String → m Unit
  printError : String → m Unit
  readInput : m String

structure World where
  files : FileTree
  input : String
  output : String
  errors : String
  deriving DecidableEq, Repr

instance : Host (StateM World) where
  readFile p := return (← get).files.read p
  writeFile p bytes := do
    match (← get).files.write p bytes with
    | .ok files =>
      modify ({ · with files := files })
      return .ok ()
    | .error e => return .error e
  print text := modify fun w => { w with output := w.output ++ text }
  printError text := modify fun w => { w with errors := w.errors ++ text }
  readInput := return (← get).input

end X25
