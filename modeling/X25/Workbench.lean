import X25.Assembly.Listing
import X25.Json.Machine

/-! # The workbench

A handle for programs that embed the machine: it keeps the program loaded last, so that a reset
can load it again into a new processor.
-/

namespace X25

structure Workbench where
  cpu : Cpu
  program : List Word
  deriving DecidableEq, Repr

inductive WorkbenchError
  | source (error : SourceError)
  | machine (error : MachineError)
  | unknownRegister (name : String)
  deriving DecidableEq, Repr

def WorkbenchError.message : WorkbenchError → String
  | source e => e.message
  | machine e => e.message
  | unknownRegister name => "unknown register: " ++ name

abbrev WorkbenchM := EStateM WorkbenchError Workbench

namespace Workbench

def initial : Except MachineError Workbench := do
  return ⟨← Cpu.ofLayout .standard, []⟩

def onCpu {α : Type} (action : CpuM α) : WorkbenchM α
  | ⟨cpu, program⟩ =>
    match action cpu with
    | .ok a cpu => .ok a ⟨cpu, program⟩
    | .error e cpu => .error (.machine e) ⟨cpu, program⟩

/-- A new processor of the same layout with the program loaded. -/
def rebuilt (w : Workbench) : Except MachineError Cpu := do
  let cpu ← Cpu.ofLayout w.cpu.layout
  match cpu.loadProgram w.program with
  | .ok _ cpu => return cpu
  | .error e _ => throw e

/-- Loads the program into a new processor. If that fails the old processor stays, but its console
is cleared all the same. -/
def reset : WorkbenchM Unit := fun w =>
  match w.rebuilt with
  | .ok cpu => .ok () { w with cpu := cpu }
  | .error e => .error (.machine e) { w with cpu := w.cpu.modifyMemory AddressSpace.clearOutput }

/-- Assembles a program and loads it; gives the number of its instructions. -/
def loadSource (source : String) : WorkbenchM Nat := do
  match Assembly.assemble source with
  | .error e => throw (.source e)
  | .ok words =>
    modify ({ · with program := words })
    reset
    return words.length / 2

def cycle : WorkbenchM String := do
  return (← onCpu Cpu.advance).name

def stepInstruction : WorkbenchM String := do
  return Assembly.pairText (← onCpu Cpu.stepInstruction).instruction.encode

/-- Runs at most a number of cycles; gives the number of all cycles so far. -/
def run (cycles : Nat) : WorkbenchM Nat := do
  discard <| onCpu (Cpu.run cycles)
  return (← get).cpu.cycles

def register (w : Workbench) (name : String) : Except WorkbenchError Word :=
  match Register.ofName? name with
  | some r => .ok (w.cpu.registers.get r)
  | none => .error (.unknownRegister name)

def memoryAt (w : Workbench) (a : Word) : Word :=
  (w.cpu.memory.get? a).getD 0

def memoryRange (w : Workbench) (start : Word) (count : Nat) : List Word :=
  (w.cpu.range start count).map (·.getD 0)

def registersJson (w : Workbench) : String :=
  w.cpu.snapshot.toJson.compact

end Workbench

end X25
