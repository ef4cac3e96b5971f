import X25.Assembly.Listing
import X25.Clock
import X25.Command.Host
import X25.Command.Request
import X25.Debugger.Frame
import X25.Json.Machine

/-! # Commands

What each request does: run a program, show it in the debugger, assemble a source into an
executable, or show an executable as source. A command that fails says why and ends with an exit
code that is not zero.
-/

namespace X25.Command

variable {m : Type → Type} [Monad m] [Host m]

abbrev CommandT (m : Type → Type) := ExceptT Nat m

def say (line : String) : CommandT m Unit :=
  monadLift (Host.print (line ++ "\n") : m Unit)

def fail {α : Type} (reason : String) : CommandT m α := do
  monadLift (Host.printError ("❌ " ++ reason ++ "\n") : m Unit)
  throw 1

def readFile (p : Path) : CommandT m (Except FileError (List UInt8)) :=
  monadLift (Host.readFile p : m _)

def decodeText? (bytes : List UInt8) : Option String :=
  String.fromUTF8? ⟨bytes.toArray⟩

def readSource (p : Path) : CommandT m String := do
  match ← readFile p with
  | .error e => fail ("Failed to read file: " ++ e.message)
  | .ok bytes =>
    match decodeText? bytes with
    | some text => return text
    | none => fail "Failed to read file: stream did not contain valid UTF-8"

def assembleSource (source : String) : CommandT m (List Word) := do
  match Assembly.assemble source with
  | .ok words => return words
  | .error e => fail ("Assembly error: " ++ e.message)

def readExecutable (p : Path) : CommandT m Executable := do
  let contents : Except ExecutableError (List UInt8) :=
    match ← readFile p with
    | .ok bytes => .ok bytes
    | .error e => .error (.io e.message)
  match contents >>= Executable.ofBytes with
  | .ok e => return e
  | .error e => fail ("Failed to load executable: " ++ e.message)

def isSourceName (name : String) : Bool :=
  ".asm".toList.isSuffixOf name.toList

/-- The executable of a file, which is assembled first if its name is that of a source. -/
def loadProgram (name : String) : CommandT m Executable := do
  let e ← if isSourceName name then do
      let words ← assembleSource (← readSource ⟨name⟩)
      say ("📝 Assembled " ++ Numeral.decimal (words.length / 2) ++ " instructions")
      pure (Executable.ofProgram words)
    else do
      let e ← readExecutable ⟨name⟩
      say ("📂 Loaded " ++ Numeral.decimal (e.program.length / 2) ++ " instructions")
      pure e
  if e.program.isEmpty then fail "No instructions to execute"
  return e

def bit (b : Bool) : String :=
  if b then "1" else "0"

def boolText (b : Bool) : String :=
  if b then "true" else "false"

def padLeft (width : Nat) (s : String) : String :=
  String.ofList (s.toList.leftpad width ' ')

def cycleLine (phase : Phase) (c : Cpu) : String :=
  padLeft 8 (Numeral.decimal c.cycles) ++ ": " ++ phase.name ++ " PC=" ++
    Debugger.addressText c.pc ++ "\n"

def traceLine (r : Retired) (flags : Flags) : String :=
  Numeral.hex 4 r.address.toNat ++ ": " ++
    Assembly.padRight 28 (Assembly.pairText r.instruction.encode) ++
    (if r.executed then "" else " (skipped)") ++ " Z=" ++ bit flags.zero ++ " N=" ++
    bit flags.negative ++ " O=" ++ bit flags.overflow ++ "\n"

/-- Shows cycles or completed instructions on the console, between what the program shows. -/
def reporter (manual trace : Bool) : Observer Unit := fun phase c _ =>
  let c := if manual then c.print (cycleLine phase c) else c
  let c :=
    if trace && phase == .execute then
      match c.control.retired with
      | some r => c.print (traceLine r c.flags)
      | none => c
    else c
  ⟨c, false, ()⟩

/-- The lines of an input text, also one without an end, up to a line that asks to quit. -/
def advancesOf (input : String) : Nat :=
  let pieces := input.toList.splitOn '\n'
  let lines := if pieces.getLast? = some [] then pieces.dropLast else pieces
  (lines.takeWhile fun l => Text.trim l != ['q']).length

def clockConfig (s : RunSettings) : ClockConfig :=
  ⟨if s.manual then .manual else .auto (s.pause * 1000000), some s.limit⟩

def generalLines (f : RegisterFile) : List String :=
  (Register.gps.filter (f.get · != 0)).map fun r =>
    Assembly.padRight 5 r.name ++ "  " ++ Numeral.hexMarked 8 (f.get r).toNat ++ " (" ++
      Numeral.signed (f.get r).toSigned ++ ")"

def resultLines (summary : RunSummary) (c : Cpu) : List String :=
  let flags := c.flags
  ["", "━━━ Result ━━━", "Cycles: " ++ Numeral.decimal summary.cycles,
    "State: " ++ c.state.name, "PC:    " ++ Numeral.hexMarked 8 c.pc.toNat,
    "Flags: zero=" ++ boolText flags.zero ++ " negative=" ++ boolText flags.negative ++
      " overflow=" ++ boolText flags.overflow ++ " carry=" ++ boolText flags.carry] ++
    generalLines c.registers ++
    if summary.reason = .cycleLimit then
      ["", "⚠️  Reached max cycles limit (" ++ Numeral.decimal summary.cycles ++
        "). Use --max-cycles to increase."]
    else []

def report (s : RunSettings) (summary : RunSummary) (c : Cpu) : CommandT m Unit :=
  if s.json then say (c.snapshot.toJson.indented 0)
  else (resultLines summary c).forM say

/-- Runs a program to the end of its cycles. The budget of the run exceeds its limit by one, so
that it is always over within it. -/
def run (name : String) (s : RunSettings) : CommandT m Unit := do
  say ("🔧 Running: " ++ name)
  let e ← loadProgram name
  let cpu ← match Cpu.ofExecutable e with
    | .ok cpu => pure cpu
    | .error e => fail ("Failed to load program: " ++ e.message)
  say ""
  say "━━━ Execution ━━━"
  if s.manual then say "Press Enter to advance one cycle, q to stop"
  let input ← if s.manual then monadLift (Host.readInput : m String) else pure ""
  let start : ClockRun Unit := ⟨cpu, false, some (.ofCount (advancesOf input)), ()⟩
  match start.run (clockConfig s) (reporter s.manual s.trace) (s.limit + 1) with
  | none => return
  | some (.ok summary r) =>
    monadLift (Host.print r.cpu.output : m Unit)
    report s summary r.cpu
  | some (.error e r) =>
    monadLift (Host.print r.cpu.output : m Unit)
    fail ("CPU error at PC=" ++ Debugger.addressText r.cpu.pc ++ ": " ++ e.message)

/-- Shows the first screen of the debugger. A program that panics ends with its own exit code. -/
def debug (name : String) : CommandT m Unit := do
  say ("🔍 Loading: " ++ name)
  let e ← loadProgram name
  say "🚀 Launching debugger..."
  say ""
  match Debugger.ofExecutable e with
  | .ok d =>
    match d.draw 100 30 with
    | .ok screen => screen.rows.forM say
    | .error _ => throw 101
  | .error e => fail ("Debugger error: " ++ e.message)

/-- Where the executable of a source goes: to the given path, or beside the source with another
ending. A path with the same parts as the source's is refused. -/
def outputPath (source : Path) (output : Option String) : Except String Path :=
  let out : Path := match output with
    | some text => ⟨text⟩
    | none => source.withExtension "x25"
  if out.sameParts source then .error ("output " ++ out.text ++ " would overwrite the source")
  else .ok out

def writeExecutable (p : Path) (e : Executable) : CommandT m Unit := do
  match e.save with
  | .error e => fail ("Failed to save executable: " ++ e.message)
  | .ok bytes =>
    match ← monadLift (Host.writeFile p bytes : m _) with
    | .ok _ => return
    | .error e => fail ("Failed to save executable: " ++ (ExecutableError.io e.message).message)

def assemble (name : String) (output : Option String) : CommandT m Unit := do
  let source : Path := ⟨name⟩
  let out ← match outputPath source output with
    | .ok out => pure out
    | .error reason => fail reason
  say ("📝 Assembling: " ++ name ++ " → " ++ out.text)
  let words ← assembleSource (← readSource source)
  say ("✓ Assembled " ++ Numeral.decimal (words.length / 2) ++ " instructions")
  writeExecutable out (.ofProgram words)
  say ("✓ Saved to " ++ out.text)

def headerLines (h : Header) : List String :=
  ["; version " ++ Numeral.hexMarked 6 h.version.toNat ++ ", entry " ++
      Numeral.hexMarked 1 h.entry.toNat,
    "; ram " ++ Numeral.hexMarked 1 h.layout.ramStart.toNat ++ "..=" ++
      Numeral.hexMarked 1 h.layout.ramEnd.toNat ++ ", console " ++
      Numeral.hexMarked 1 h.layout.consoleStart.toNat ++ "..=" ++
      Numeral.hexMarked 1 h.layout.consoleEnd.toNat]

def disassemble (name : String) : CommandT m Unit := do
  say ("📖 Disassembling: " ++ name)
  say ""
  let e ← readExecutable ⟨name⟩
  (headerLines e.header).forM say
  say (Assembly.listing e.program)

def banner : List String :=
  ["x25 v0.1.0", "A cycle-level simulator of the LLTP/x25-32 CPU", "",
    "Use --help for available commands"]

def perform : Request → CommandT m Unit
  | .banner => banner.forM say
  | .version => say "x25 0.1.0"
  | .run program settings => run program settings
  | .debug program => debug program
  | .assemble source output => assemble source output
  | .disassemble program => disassemble program

def execute (args : List String) : m Nat := do
  match Request.ofArguments? args with
  | none =>
    Host.printError "error: the command line is not understood\n"
    return 2
  | some request =>
    match ← (perform request : CommandT m Unit).run with
    | .ok _ => return 0
    | .error code => return code

end X25.Command
