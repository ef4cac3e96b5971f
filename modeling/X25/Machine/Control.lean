import X25.Machine.Microprogram

/-! # The control unit

An instruction takes four phases: two fetch its words, one decodes them and moves the program
counter past them, and one executes it if its condition holds. A phase that fails is not passed.
-/

namespace X25

inductive Phase
  | fetch1 | fetch2 | decode | execute
  deriving DecidableEq, Repr

namespace Phase

def next : Phase → Phase
  | fetch1 => fetch2
  | fetch2 => decode
  | decode => execute
  | execute => fetch1

def index : Phase → Nat
  | fetch1 => 0
  | fetch2 => 1
  | decode => 2
  | execute => 3

def name : Phase → String
  | fetch1 => "FETCH1"
  | fetch2 => "FETCH2"
  | decode => "DECODE"
  | execute => "EXECUTE"

end Phase

/-- An instruction that has passed the execute phase. -/
structure Retired where
  address : Word
  instruction : Instruction
  executed : Bool
  deriving DecidableEq, Repr

/-- The phase that comes next, where the last fetch began, and the instructions that were decoded
and retired last. -/
structure Control where
  phase : Phase
  fetchedAt : Word
  current : Option Instruction
  retired : Option Retired
  deriving DecidableEq, Repr

def Control.initial : Control :=
  ⟨.fetch1, 0, none, none⟩

structure Machine (δ : Type := Device) where
  datapath : Datapath δ
  control : Control
  deriving DecidableEq, Repr

abbrev Machine.Step (δ : Type) := EStateM MachineError (Machine δ)

namespace Machine

variable {δ : Type}

def instructionWords (m : Machine δ) : WordPair :=
  ⟨m.datapath.registers.ira, m.datapath.registers.irb⟩

def stopLatching (m : Machine δ) : Machine δ :=
  { m with datapath.alu.latching := false }

def onDatapath {α : Type} (step : Datapath.Step δ α) : Step δ α
  | ⟨datapath, control⟩ =>
    match step datapath with
    | .ok a d => .ok a ⟨d, control⟩
    | .error e d => .error e ⟨d, control⟩

def modifyControl (f : Control → Control) : Step δ Unit :=
  modify fun m => { m with control := f m.control }

/-- Ends the latching of flags after a step, also if the step failed. -/
def withoutLatching (step : Step δ Unit) : Step δ Unit := fun m =>
  match step m with
  | .ok u m => .ok u m.stopLatching
  | .error e m => .error e m.stopLatching

variable [MemoryDevice δ]

def runMicro (ops : List MicroOp) : Step δ Unit :=
  onDatapath (MicroOp.runAll ops)

def fetch1 : Step δ Unit := do
  modify fun m => { m with control.fetchedAt := m.datapath.registers.pc }
  runMicro MicroOp.fetchFirst

def fetch2 : Step δ Unit :=
  runMicro MicroOp.fetchSecond

def decode : Step δ Unit := do
  match Instruction.decode (← get).instructionWords with
  | .error e => throw (.decode e)
  | .ok i =>
    runMicro MicroOp.passInstruction
    modifyControl ({ · with current := some i })

def runRoutine (i : Instruction) : Step δ Unit :=
  match i.routine? with
  | none => throw (.unimplemented i.opcode)
  | some ops => runMicro ops

def execute : Step δ Unit := do
  let m ← get
  match m.control.current with
  | none => throw .nothingDecoded
  | some i =>
    match i.condition.evaluate m.datapath.alu.flags with
    | .error e => throw (.decode e)
    | .ok holds =>
      if holds then withoutLatching (runRoutine i)
      modifyControl fun c => { c with retired := some ⟨c.fetchedAt, i, holds⟩ }

/-- Runs the next phase, and gives it. -/
def tick : Step δ Phase := do
  let phase := (← get).control.phase
  match phase with
  | .fetch1 => fetch1
  | .fetch2 => fetch2
  | .decode => decode
  | .execute => execute
  modifyControl ({ · with phase := phase.next })
  return phase

end Machine

end X25
