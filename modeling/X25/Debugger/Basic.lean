import X25.Assembly.Printer
import X25.Machine.Cpu

/-! # The debugger

A debugger holds a processor, the executable that a reset loads again, breakpoints on instruction
addresses, and a line of status. While it runs continuously, each tick completes one instruction
and stops in front of a breakpoint.
-/

namespace X25

/-- The breakpoints ascend, and the memory view starts `scroll` words after the start of the first
region. -/
structure Debugger where
  cpu : Cpu
  executable : Executable
  breakpoints : List Word
  running : Bool
  quitting : Bool
  status : String
  scroll : Nat
  deriving DecidableEq, Repr

structure DisassemblyRow where
  address : Word
  text : String
  isCurrent : Bool
  deriving DecidableEq, Repr

namespace Debugger

def greeting : String :=
  "Ready. Press 's' to pulse, 'i' to step, 'r' to run, 'q' to quit."

def addressText (a : Word) : String :=
  Numeral.hexMarked 4 a.toNat

def ofExecutable (e : Executable) : Except MachineError Debugger := do
  let cpu ← Cpu.ofExecutable e
  return ⟨cpu, e, [], false, false, greeting, 0⟩

def fault (d : Debugger) (e : MachineError) : Debugger :=
  { d with
    status := "Error at PC=" ++ addressText d.cpu.pc ++ ": " ++ e.message
    running := false }

def stopped (d : Debugger) : Debugger :=
  { d with
    status := "CPU " ++ d.cpu.state.name ++ " after " ++ Numeral.decimal d.cpu.cycles ++
      " cycles. Press 'x' to reset."
    running := false }

def pulse (d : Debugger) : Debugger :=
  if d.cpu.isRunning then
    match d.cpu.advance with
    | .ok phase cpu =>
      { d with
        cpu := cpu
        status := "Cycle " ++ Numeral.decimal cpu.cycles ++ ": " ++ phase.name ++ " done, PC=" ++
          addressText cpu.pc }
    | .error e cpu => { d with cpu := cpu }.fault e
  else d.stopped

def retiredText (r : Retired) : String :=
  addressText r.address ++ ": " ++ Assembly.pairText r.instruction.encode ++
    if r.executed then "" else " (skipped)"

def step (d : Debugger) : Debugger :=
  if d.cpu.isRunning then
    match d.cpu.stepInstruction with
    | .ok retired cpu => { d with cpu := cpu, status := retiredText retired }
    | .error e cpu => { d with cpu := cpu }.fault e
  else d.stopped

def run (d : Debugger) : Debugger :=
  { d with running := true, status := "Running..." }

def hasBreakpoint (d : Debugger) (a : Word) : Bool :=
  d.breakpoints.contains a

def stopAtBreakpoint (d : Debugger) : Debugger :=
  if d.running && d.hasBreakpoint d.cpu.pc then
    { d with running := false, status := "Breakpoint at PC=" ++ addressText d.cpu.pc }
  else d

def tick (d : Debugger) : Debugger :=
  if d.running then
    if d.cpu.isRunning then d.step.stopAtBreakpoint else d.stopped
  else d

def insertAddress (a : Word) : List Word → List Word
  | [] => [a]
  | b :: bs => if a ≤ b then a :: b :: bs else b :: insertAddress a bs

def toggleBreakpoint (d : Debugger) : Debugger :=
  let pc := d.cpu.pc
  if d.hasBreakpoint pc then
    { d with
      breakpoints := d.breakpoints.erase pc
      status := "Removed breakpoint at PC=" ++ addressText pc }
  else
    { d with
      breakpoints := insertAddress pc d.breakpoints
      status := "Set breakpoint at PC=" ++ addressText pc }

/-- Loads the executable into a new processor. If it cannot be loaded the old one stays, but its
console is cleared all the same. -/
def reset (d : Debugger) : Debugger :=
  match Cpu.ofExecutable d.executable with
  | .ok cpu => { d with cpu := cpu, status := "Reset. Ready.", running := false }
  | .error e =>
    { d with
      cpu := d.cpu.modifyMemory AddressSpace.clearOutput
      status := "Reset failed: " ++ e.message
      running := false }

/-- Where a window of so many rows begins: half of them before the program counter, but not before
the first region, and in step with the program counter. -/
def windowStart (d : Debugger) (rows : Nat) : Except Panic Word :=
  let pc := d.cpu.pc
  let back : Word := .ofNat rows / 2 * 2
  let start := max (if back ≤ pc then pc - back else 0) d.cpu.layout.ramStart
  if (start ^^^ pc) &&& 1 = 0 then return start else start.addChecked 1

/-- How many rows of 32 bytes can be asked room for. That there is as much memory as is asked for
is taken for granted. -/
def rowCapacity : Nat :=
  0x7FFFFFFFFFFFFFFF / 32

/-- Rows from an address on, up to the first pair that is not all in memory. -/
def rowsFrom (c : Cpu) : Nat → Word → List DisassemblyRow
  | 0, _ => []
  | n + 1, a =>
    match c.memory.get? a, c.memory.get? (a + 1) with
    | some low, some high =>
      ⟨a, Assembly.pairText ⟨low, high⟩, a == c.pc⟩ ::
        if a.toNat + 2 < UInt32.size then rowsFrom c n (a + 2) else []
    | _, _ => []

/-- The disassembly around the program counter. Room for all the rows is asked for beforehand. -/
def window (d : Debugger) (rows : Nat) : Except Panic (List DisassemblyRow) := do
  let start ← d.windowStart rows
  if rowCapacity < rows then throw .capacity
  return rowsFrom d.cpu rows start

end Debugger

end X25
