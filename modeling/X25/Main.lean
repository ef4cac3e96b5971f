import X25.Command.Basic

/-! # The command line

Gives the commands the real files and streams.
-/

namespace X25

def systemError (e : IO.Error) : FileError :=
  match e with
  | .noFileOrDirectory .. => .notFound
  | e => .other (toString e)

instance : Host IO where
  readFile p := do
    match ← (IO.FS.readBinFile p.text).toBaseIO with
    | .ok bytes => return .ok bytes.data.toList
    | .error e => return .error (systemError e)
  writeFile p bytes := do
    match ← (IO.FS.writeBinFile p.text ⟨bytes.toArray⟩).toBaseIO with
    | .ok _ => return .ok ()
    | .error e => return .error (systemError e)
  print text := do (← IO.getStdout).putStr text
  printError text := do (← IO.getStderr).putStr text
  readInput := do (← IO.getStdin).readToEnd

end X25

def main (args : List String) : IO UInt32 := do
  return .ofNat (← X25.Command.execute args)
