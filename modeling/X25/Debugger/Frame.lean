import X25.Assembly.Listing
import X25.Debugger.Basic
import X25.Debugger.Screen
import X25.Text.Lines
import X25.Text.Wrapping

/-! # The debugger's screen

Seven panels in two columns: disassembly, buses and status on the left; registers, memory, console
and help on the right. The left column takes 55 hundredths of the width.
-/

namespace X25.Debugger

open CellLine Screen

def leftWidth (width : Nat) : Nat :=
  width * 55 / 100

/-- The current instruction is bold yellow, and other breakpoints are red, over the whole row. -/
def disassemblyLine (d : Debugger) (width : Nat) (r : DisassemblyRow) : CellLine :=
  let mark := if d.hasBreakpoint r.address then "●" else " "
  let pointer := if r.isCurrent then "▶ " else "  "
  let style :=
    if r.isCurrent then .strong .yellow
    else if d.hasBreakpoint r.address then .ofColour .red
    else .plain
  (write style (mark ++ " " ++ pointer ++ addressText r.address ++ ": " ++ r.text)).fit width style

def disassemblyPanel (d : Debugger) (width height : Nat) : Except Panic Screen := do
  let rows ← d.window (height - 2)
  return panel " Disassembly " (.ofColour .cyan) .plain width height
    (rows.map (d.disassemblyLine (width - 2)))

def busLine (f : Fabric) (b : Bus) : CellLine :=
  write .plain (Assembly.padRight 10 b.name) ++
    match f.selection b with
    | some t => write (.ofColour .white) (t.source.name ++ " → " ++ t.destination.name)
    | none => write (.ofColour .gray) "idle"

def busPanel (d : Debugger) (width height : Nat) : Screen :=
  let fabric := d.cpu.datapath.fabric
  panel (" Buses (" ++ Numeral.decimal fabric.transfers ++ " transfers) ") (.ofColour .blue) .plain
    width height ([Bus.feedA, .feedB, .writeback].map (busLine fabric))

def statusPanel (d : Debugger) (width height : Nat) : Screen :=
  panel " Status " (.ofColour .white) (.ofColour .white) width height
    [write (.ofColour .white) d.status]

def flagText (letter : Char) (on : Bool) : CellLine :=
  if on then write (.strong .green) (String.ofList [letter, ' '])
  else write (.ofColour .gray) (String.ofList [letter.toLower, ' '])

def registerText (name : String) (v : Word) : CellLine :=
  write .plain name ++ write .plain (Numeral.hexMarked 8 v.toNat)

def generalText (r : Register) (v : Word) : CellLine :=
  write (.ofColour (if v = 0 then .gray else .white))
    (Assembly.padRight 5 r.name ++ Numeral.hexMarked 8 v.toNat ++ "  ")

def generalLines (f : RegisterFile) : List CellLine :=
  (List.finRange 8).map fun (i : Fin 8) =>
    let first : Register := .gp ⟨2 * i.val, by omega⟩
    let second : Register := .gp ⟨2 * i.val + 1, by omega⟩
    generalText first (f.get first) ++ generalText second (f.get second)

def registerLines (c : Cpu) : List CellLine :=
  let f := c.registers
  let flags := c.flags
  [write .plain "PC " ++ write (.ofColour .yellow) (Numeral.hexMarked 8 f.pc.toNat) ++
      registerText "  MAR " f.mar ++ registerText "  MDR " f.mdr,
    registerText "IRA " f.ira ++ registerText "  IRB " f.irb,
    write .plain "Flags " ++ flagText 'Z' flags.zero ++ flagText 'N' flags.negative ++
      flagText 'O' flags.overflow ++ flagText 'C' flags.carry ++
      write .plain ("  ALU " ++ c.datapath.alu.operation.text),
    write .plain "Phase " ++ write (.ofColour .cyan) c.phase.name ++ write .plain "  Cycles " ++
      write (.ofColour .cyan) (Numeral.decimal c.cycles) ++ write .plain "  State " ++
      write (.ofColour (if c.isRunning then .green else .red)) c.state.name] ++
    generalLines f

def registerPanel (d : Debugger) (width height : Nat) : Screen :=
  panel " Registers " (.ofColour .green) .plain width height (registerLines d.cpu)

def memoryWord (c : Cpu) (a : Word) : CellLine :=
  let v := (c.memory.get? a).getD 0
  let style : Style :=
    if a = c.pc ∨ a = c.pc + 1 then .strong .yellow
    else .ofColour (if v = 0 then .gray else .white)
  write style (Numeral.hex 8 v.toNat ++ " ")

/-- Up to four words from an address of the first region on. -/
def memoryLine (c : Cpu) (first : Nat) : CellLine :=
  let count := min 4 (c.layout.ramEnd.toNat + 1 - first)
  write .plain (Numeral.hexMarked 4 first ++ ": ") ++
    (List.range count).flatMap fun i => memoryWord c (.ofNat (first + i))

def memoryLines (d : Debugger) (count : Nat) : Except Panic (List CellLine) := do
  let offsets ← (List.range count).mapM fun row => sizeSum d.scroll (row * 4)
  let starts := offsets.map fun offset =>
    d.cpu.layout.ramStart.toNat + (.ofNat offset : Word).toNat
  return (starts.filter (· ≤ d.cpu.layout.ramEnd.toNat)).map (memoryLine d.cpu)

def memoryPanel (d : Debugger) (width height : Nat) : Except Panic Screen := do
  let lines ← d.memoryLines (height - 2)
  return panel " Memory " (.ofColour .magenta) .plain width height lines

/-- The rows of what the program has shown. As many are skipped as there are lines, counted with
16 bits, beyond the given height; each line may have several rows. -/
def consoleRows (d : Debugger) (width height : Nat) : List (List Char) :=
  let lines := Text.lines d.cpu.output.toList
  (lines.flatMap (Text.wrap width)).drop (lines.length % UInt16.size - height)

def consolePanel (d : Debugger) (width height : Nat) : Screen :=
  panel " Console " .plain .plain width height
    ((d.consoleRows (width - 2) (height - 2)).map fun row => write .plain (String.ofList row))

def helpPanel (width height : Nat) : Screen :=
  panel " Help " (.ofColour .gray) (.ofColour .gray) width height
    [write (.ofColour .gray) "s: Pulse  i: Step  r: Run  p: Pause  b: Breakpoint",
      write (.ofColour .gray) "x: Reset  ↑↓: Scroll memory  q: Quit"]

def draw (d : Debugger) (width height : Nat) : Except Panic Screen := do
  let left := leftWidth width
  let right := width - left
  let disassembly ← d.disassemblyPanel left (height - 8)
  let memory ← d.memoryPanel right (height - 22)
  return beside
    (disassembly ++ d.busPanel left 5 ++ d.statusPanel left 3)
    (d.registerPanel right 13 ++ memory ++ d.consolePanel right 5 ++ helpPanel right 4)

end X25.Debugger
