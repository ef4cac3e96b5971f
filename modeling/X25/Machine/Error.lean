import X25.Isa.Codec
import X25.Machine.Endpoint
import X25.Memory.Layout

/-! # Machine errors

Why an operation of the machine failed, each cause with its text.
-/

namespace X25

/-- Two buses feed the operands of the arithmetic unit, and one delivers its result. -/
inductive Bus
  | feedA | feedB | writeback
  deriving DecidableEq, Repr

def Bus.name : Bus → String
  | feedA => "A-feed"
  | feedB => "B-feed"
  | writeback => "writeback"

inductive FabricError
  | notWired (bus : Bus) (endpoint : Endpoint)
  | access (violation : AccessViolation)
  deriving DecidableEq, Repr

def FabricError.message : FabricError → String
  | notWired bus endpoint => endpoint.name ++ " is not wired to the " ++ bus.name ++ " bus"
  | access v => v.message

inductive RunState
  | running | halted | faulted
  deriving DecidableEq, Repr

def RunState.name : RunState → String
  | running => "Running"
  | halted => "Halted"
  | faulted => "Faulted"

inductive MachineError
  | notRunning (state : RunState)
  | decode (error : DecodeError)
  | fabric (error : FabricError)
  | address (fault : AddressFault)
  | unimplemented (opcode : Opcode)
  | nothingDecoded
  | layout (error : MapError)
  | programTooLarge (size available : Nat)
  deriving DecidableEq, Repr

def MachineError.message : MachineError → String
  | notRunning s => "CPU not running: " ++ s.name
  | decode e => "decode error: " ++ e.message
  | fabric e => "fabric error: " ++ e.message
  | address f => f.message
  | unimplemented o => "opcode " ++ o.mnemonic ++ " is not implemented"
  | nothingDecoded => "execute phase reached with no decoded instruction"
  | layout e => "invalid memory layout: " ++ e.message
  | programTooLarge size available =>
    "program of " ++ Numeral.decimal size ++ " words exceeds " ++ Numeral.decimal available ++
      " words of RAM"

end X25
