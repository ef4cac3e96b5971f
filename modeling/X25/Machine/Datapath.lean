import X25.Machine.Alu
import X25.Machine.Error
import X25.Machine.RegisterFile

/-! # The datapath

Registers, arithmetic unit and memory, and the three buses between them. A transfer on a bus moves
one word from a source to a destination: any register may feed an operand of the arithmetic unit,
and the unit's result goes to any register or to the sink. Reading the memory data register loads
it from memory first, writing it stores to memory first, and writing an operand recomputes. The
memory may be made of any devices.
-/

namespace X25

structure Transfer where
  bus : Bus
  source : Endpoint
  destination : Endpoint
  deriving DecidableEq, Repr

structure Fabric where
  feedA : Option Transfer
  feedB : Option Transfer
  writeback : Option Transfer
  transfers : Nat
  deriving DecidableEq, Repr

namespace Fabric

def initial : Fabric :=
  ⟨none, none, none, 0⟩

def selection (f : Fabric) : Bus → Option Transfer
  | .feedA => f.feedA
  | .feedB => f.feedB
  | .writeback => f.writeback

def record (f : Fabric) (t : Transfer) : Fabric :=
  match t.bus with
  | .feedA => { f with feedA := some t, transfers := f.transfers + 1 }
  | .feedB => { f with feedB := some t, transfers := f.transfers + 1 }
  | .writeback => { f with writeback := some t, transfers := f.transfers + 1 }

end Fabric

namespace Bus

def acceptsSource : Bus → Endpoint → Bool
  | feedA, .register _ | feedB, .register _ => true
  | writeback, .aluOut => true
  | _, _ => false

def acceptsDestination : Bus → Endpoint → Bool
  | feedA, .aluA => true
  | feedB, .aluB => true
  | writeback, .register _ | writeback, .void => true
  | _, _ => false

/-- The transfer between two endpoints if the bus reaches both; the source is checked first. -/
def resolve (b : Bus) (source destination : Endpoint) : Except FabricError Transfer :=
  if !b.acceptsSource source then .error (.notWired b source)
  else if !b.acceptsDestination destination then .error (.notWired b destination)
  else .ok ⟨b, source, destination⟩

end Bus

structure Datapath (δ : Type := Device) where
  registers : RegisterFile
  alu : Alu
  memory : AddressSpace δ
  fabric : Fabric
  deriving DecidableEq, Repr

/-- A step on the datapath that can fail; what it changed before failing stays. -/
abbrev Datapath.Step (δ : Type) := EStateM MachineError (Datapath δ)

abbrev DatapathM := Datapath.Step Device

namespace Datapath

variable {δ : Type}

def ofMemory (memory : AddressSpace δ) : Datapath δ :=
  ⟨.initial, .initial, memory, .initial⟩

def value (d : Datapath δ) : Endpoint → Word
  | .register r => d.registers.get r
  | .aluA => d.alu.a
  | .aluB => d.alu.b
  | .aluOut => d.alu.out
  | .void => d.registers.void

def put (e : Endpoint) (v : Word) (d : Datapath δ) : Datapath δ :=
  match e with
  | .register r => { d with registers := d.registers.put r v }
  | .aluA => { d with alu := d.alu.feedA v }
  | .aluB => { d with alu := d.alu.feedB v }
  | .aluOut => { d with alu := { d.alu with out := v } }
  | .void => { d with registers := { d.registers with void := v } }

def checkRead (e : Endpoint) : Step δ Unit :=
  match e.checkRead with
  | .ok _ => pure ()
  | .error v => throw (.fabric (.access v))

def checkWrite (e : Endpoint) : Step δ Unit :=
  match e.checkWrite with
  | .ok _ => pure ()
  | .error v => throw (.fabric (.access v))

def setOperation (m : Microcode) : Step δ Unit :=
  modify fun d => { d with alu := { d.alu with operation := m } }

def setLatching (on : Bool) : Step δ Unit :=
  modify fun d => { d with alu := { d.alu with latching := on } }

variable [MemoryDevice δ]

def loadData : Step δ Unit := fun d =>
  match d.memory.get? d.registers.mar with
  | some v => .ok () { d with registers := d.registers.put .mdr v }
  | none => .error (.address ⟨d.registers.mar⟩) d

def storeData (v : Word) : Step δ Unit := fun d =>
  match AddressSpace.store d.registers.mar v d.memory with
  | .ok _ memory => .ok () { d with memory := memory }
  | .error f memory => .error (.address f) { d with memory := memory }

def read (e : Endpoint) : Step δ Word := do
  checkRead e
  if e.trigger.firesOnRead then loadData
  return (← get).value e

/-- Writes an endpoint as a bus does. A store that fails leaves the register as it was. -/
def write (e : Endpoint) (v : Word) : Step δ Unit := do
  checkWrite e
  if e = .register .mdr then storeData v
  modify (put e v)

def commit (t : Transfer) : Step δ Word := do
  let v ← read t.source
  write t.destination v
  modify fun d => { d with fabric := d.fabric.record t }
  return v

def select (b : Bus) (source destination : Endpoint) : Step δ Word :=
  match b.resolve source destination with
  | .ok t => commit t
  | .error e => throw (.fabric e)

def releaseWriteback : Step δ Unit := do
  discard <| select .writeback .aluOut .void

end Datapath

end X25
