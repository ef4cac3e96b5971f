import X25.Executable
import X25.Machine.Control

/-! # The processor

A machine with its memory layout, its entry point, a count of the clock cycles that succeeded, and
a state of running. A cycle that fails faults the processor until it is reset. A reset keeps the
memory and returns to the entry point.
-/

namespace X25

structure Cpu where
  machine : Machine
  state : RunState
  /-- Cycles that succeeded since the start or the last reset. It takes `2 ^ 64` of them to leave
  the 64 bits of the count. -/
  cycles : Nat
  layout : Layout
  entry : Word
  deriving DecidableEq, Repr

abbrev CpuM := EStateM MachineError Cpu

inductive Edge
  | rising | falling
  deriving DecidableEq, Repr

namespace Cpu

def datapath (c : Cpu) : Datapath :=
  c.machine.datapath

def control (c : Cpu) : Control :=
  c.machine.control

def registers (c : Cpu) : RegisterFile :=
  c.machine.datapath.registers

def memory (c : Cpu) : AddressSpace :=
  c.machine.datapath.memory

def flags (c : Cpu) : Flags :=
  c.machine.datapath.alu.flags

def pc (c : Cpu) : Word :=
  c.registers.pc

def phase (c : Cpu) : Phase :=
  c.machine.control.phase

def output (c : Cpu) : String :=
  c.memory.output

def isRunning (c : Cpu) : Bool :=
  c.state == .running

/-- A processor at its entry point, with registers, unit and control in their first state. -/
def started (memory : AddressSpace) (layout : Layout) (entry : Word) : Cpu where
  machine := ⟨⟨RegisterFile.initial.put .pc entry, .initial, memory, .initial⟩, .initial⟩
  state := .running
  cycles := 0
  layout := layout
  entry := entry

/-- A processor with empty memory, entered at the start of the first region. -/
def ofLayout (layout : Layout) : Except MachineError Cpu :=
  match layout.space with
  | .ok memory => .ok (started memory layout layout.ramStart)
  | .error e => .error (.layout e)

def modifyMemory (f : AddressSpace → AddressSpace) (c : Cpu) : Cpu :=
  { c with machine.datapath.memory := f c.machine.datapath.memory }

def modifyRegisters (f : RegisterFile → RegisterFile) (c : Cpu) : Cpu :=
  { c with machine.datapath.registers := f c.machine.datapath.registers }

def readMemory (c : Cpu) (a : Word) : Except AddressFault Word :=
  c.memory.read a

def writeMemory (a v : Word) : CpuM Unit := fun c =>
  if c.memory.holds a then .ok () (c.modifyMemory (·.put a v)) else .error (.address ⟨a⟩) c

/-- Writes consecutive words from an address on, up to the first that is refused. -/
def writeAll (start : Word) : List Word → CpuM Unit
  | [] => pure ()
  | v :: vs => do
    writeMemory start v
    writeAll (start + 1) vs

/-- Copies a program to the start of the first region, if the region is large enough. -/
def loadProgram (program : List Word) : CpuM Unit := do
  let layout := (← get).layout
  if layout.ramSize < program.length then
    throw (.programTooLarge program.length layout.ramSize)
  writeAll layout.ramStart program

def setEntry (entry : Word) (c : Cpu) : Cpu :=
  { c.modifyRegisters (·.put .pc entry) with entry := entry }

def ofExecutable (e : Executable) : Except MachineError Cpu := do
  let c ← ofLayout e.header.layout
  match loadProgram e.program c with
  | .ok _ c => return c.setEntry e.header.entry
  | .error e _ => throw e

/-- Resets registers, arithmetic unit, fabric and control unit. The memory is kept. -/
def reset (c : Cpu) : Cpu :=
  { c with
    machine.datapath.registers := RegisterFile.initial.put .pc c.entry
    machine.datapath.alu := .initial
    machine.datapath.fabric := .initial
    machine.control := .initial
    state := .running
    cycles := 0 }

theorem reset_eq_started (c : Cpu) : c.reset = started c.memory c.layout c.entry := rfl

def halt (c : Cpu) : Cpu :=
  if c.state = .running then { c with state := .halted } else c

def resume (c : Cpu) : Cpu :=
  if c.state = .halted then { c with state := .running } else c

/-- Runs a phase and counts it, or faults. -/
def risingEdge : CpuM Phase
  | ⟨machine, state, cycles, layout, entry⟩ =>
    match Machine.tick machine with
    | .ok phase machine => .ok phase ⟨machine, state, cycles + 1, layout, entry⟩
    | .error e machine => .error e ⟨machine, .faulted, cycles, layout, entry⟩

def advance : CpuM Phase := fun c =>
  if c.state = .running then risingEdge c else .error (.notRunning c.state) c

/-- One edge of the clock. The rising edge runs a phase, and the falling edge does nothing. -/
def pulse (edge : Edge) : CpuM (Option Phase) := fun c =>
  if c.state = .running then
    match edge with
    | .rising => (some <$> risingEdge) c
    | .falling => .ok none c
  else .error (.notRunning c.state) c

/-- Advances until a cycle runs the execute phase, within a number of cycles. -/
def advanceToExecute : Nat → CpuM Retired
  | 0 => throw .nothingDecoded
  | n + 1 => do
    if (← advance) = .execute then
      match (← get).control.retired with
      | some r => return r
      | none => throw .nothingDecoded
    else advanceToExecute n

/-- Completes the current instruction. Four cycles always reach its execute phase. -/
def stepInstruction : CpuM Retired :=
  advanceToExecute 4

theorem cycles_of_advance {c c' : Cpu} {p : Phase} (h : advance c = .ok p c') :
    c'.cycles = c.cycles + 1 := by
  rw [advance] at h
  split at h
  · rw [risingEdge] at h
    split at h <;> cases h
    rfl
  · cases h

def advanceBelow (limit : Nat) (c : Cpu) : EStateM.Result MachineError Cpu Unit :=
  if c.state = .running ∧ c.cycles < limit then
    match _h : advance c with
    | .ok _ c' => advanceBelow limit c'
    | .error e c' => .error e c'
  else .ok () c
termination_by limit - c.cycles
decreasing_by
  have := cycles_of_advance _h
  omega

section Loop

variable {c c' : Cpu} {p : Phase} {e : MachineError} {limit : Nat}

theorem advanceBelow_of_ok (hb : c.state = .running ∧ c.cycles < limit)
    (h : advance c = .ok p c') : advanceBelow limit c = advanceBelow limit c' := by
  rw [advanceBelow, if_pos hb]
  split <;> rename_i ha <;> cases h.symm.trans ha
  rfl

theorem advanceBelow_of_error (hb : c.state = .running ∧ c.cycles < limit)
    (h : advance c = .error e c') : advanceBelow limit c = .error e c' := by
  rw [advanceBelow, if_pos hb]
  split <;> rename_i ha <;> cases h.symm.trans ha
  rfl

theorem advanceBelow_of_not (hb : ¬ (c.state = .running ∧ c.cycles < limit)) :
    advanceBelow limit c = .ok () c := by
  rw [advanceBelow, if_neg hb]

end Loop

def cycleLimit : Nat := UInt64.size - 1

def run (cycles : Nat) : CpuM Nat := do
  let start := (← get).cycles
  advanceBelow (min (start + cycles) cycleLimit)
  return (← get).cycles - start

/-- Writes a register from outside; the constants stay as they are. -/
def setRegister (r : Register) (v : Word) (c : Cpu) : Cpu :=
  c.modifyRegisters (·.set r v)

/-- Consecutive words from an address on, with nothing where there is no word. Addresses wrap. -/
def range (c : Cpu) (start : Word) (count : Nat) : List (Option Word) :=
  (List.range count).map fun i => c.memory.get? (start + .ofNat i)

def print (text : String) (c : Cpu) : Cpu :=
  c.modifyMemory fun s => { s with output := s.output ++ text }

end Cpu

end X25
