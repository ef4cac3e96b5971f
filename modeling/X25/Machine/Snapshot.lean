import X25.Machine.Cpu

/-! # Snapshots

What a front end shows of the processor between two cycles.
-/

namespace X25

structure Snapshot where
  state : RunState
  phase : Phase
  cycles : Nat
  pc : Word
  mar : Word
  mdr : Word
  ira : Word
  irb : Word
  gp : Vector Word 16
  flags : Flags
  operation : Microcode
  latching : Bool
  retired : Option Retired
  deriving DecidableEq, Repr

def Cpu.snapshot (c : Cpu) : Snapshot where
  state := c.state
  phase := c.phase
  cycles := c.cycles
  pc := c.registers.pc
  mar := c.registers.mar
  mdr := c.registers.mdr
  ira := c.registers.ira
  irb := c.registers.irb
  gp := c.registers.gp
  flags := c.flags
  operation := c.datapath.alu.operation
  latching := c.datapath.alu.latching
  retired := c.control.retired

end X25
