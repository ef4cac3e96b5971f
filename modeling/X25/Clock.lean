import X25.Machine.Cpu

/-! # The clock

A clock drives the processor cycle by cycle, freely or one cycle for each signal from outside.
Between two cycles it may end for one of four reasons, tested in a fixed order: a stop was
requested, the limit of cycles is reached, the processor does not run, or no signal comes any
more. An observer sees the processor after each cycle; it may change it and request a stop.
-/

namespace X25

/-- A clock runs by itself, with a pause between cycles in nanoseconds, or waits for signals. -/
inductive ClockMode
  | auto (pause : Nat)
  | manual
  deriving DecidableEq, Repr

structure ClockConfig where
  mode : ClockMode
  limit : Option Nat
  deriving DecidableEq, Repr

def ClockConfig.standard : ClockConfig :=
  ⟨.auto 0, some 10000⟩

inductive HaltReason
  | cycleLimit | stopped | signalClosed | cpuHalted
  deriving DecidableEq, Repr

namespace HaltReason

def all : List HaltReason :=
  [cycleLimit, stopped, signalClosed, cpuHalted]

def name : HaltReason → String
  | cycleLimit => "CycleLimit"
  | stopped => "Stopped"
  | signalClosed => "SignalClosed"
  | cpuHalted => "CpuHalted"

end HaltReason

structure RunSummary where
  cycles : Nat
  reason : HaltReason
  deriving DecidableEq, Repr

/-- A source of signals: so many still come before it closes, and so many answers were taken. -/
structure SignalSource where
  remaining : Nat
  taken : Nat
  deriving DecidableEq, Repr

namespace SignalSource

def ofCount (n : Nat) : SignalSource :=
  ⟨n, 0⟩

def isOpen (s : SignalSource) : Bool :=
  s.remaining != 0

/-- Takes the next answer, also the one that says the source is closed. -/
def take (s : SignalSource) : SignalSource :=
  ⟨s.remaining - 1, s.taken + 1⟩

end SignalSource

/-- What a run of the clock acts on: the processor, the request to stop, the source of signals,
and the observer's own notes. -/
structure ClockRun (α : Type) where
  cpu : Cpu
  stopRequested : Bool
  source : Option SignalSource
  notes : α

structure Observation (α : Type) where
  cpu : Cpu
  stop : Bool
  notes : α

abbrev Observer (α : Type) := Phase → Cpu → α → Observation α

def Observer.idle : Observer Unit :=
  fun _ cpu _ => ⟨cpu, false, ()⟩

namespace ClockRun

variable {α : Type}

/-- Why the run ends before the next cycle, if it does, after the given number of cycles. -/
def ending? (config : ClockConfig) (cycles : Nat) (r : ClockRun α) : Option HaltReason :=
  if r.stopRequested then some .stopped
  else if config.limit.any (· ≤ cycles) then some .cycleLimit
  else if !r.cpu.isRunning then some .cpuHalted
  else match config.mode with
    | .auto _ => none
    | .manual => if r.source.any (·.isOpen) then none else some .signalClosed

/-- Takes the answer for the next cycle. It is asked for only where all other reasons to end are
ruled out. -/
def ask (config : ClockConfig) (ending : Option HaltReason) (r : ClockRun α) : ClockRun α :=
  match config.mode, ending with
  | .manual, none | .manual, some .signalClosed =>
    { r with source := r.source.map SignalSource.take }
  | _, _ => r

def cycle (observer : Observer α) : EStateM MachineError (ClockRun α) Unit
  | ⟨cpu, stopRequested, source, notes⟩ =>
    match cpu.advance with
    | .ok phase cpu =>
      let o := observer phase cpu notes
      .ok () ⟨o.cpu, stopRequested || o.stop, source, o.notes⟩
    | .error e cpu => .error e ⟨cpu, stopRequested, source, notes⟩

/-- Goes on after the given number of cycles. There is no result if the run is not over within
the budget of cycles. -/
def proceed (config : ClockConfig) (observer : Observer α) (cycles : Nat) :
    (budget : Nat) → ClockRun α → Option (EStateM.Result MachineError (ClockRun α) RunSummary)
  | 0, _ => none
  | budget + 1, r =>
    let ending := r.ending? config cycles
    let r := r.ask config ending
    match ending with
    | some reason => some (.ok ⟨cycles, reason⟩ r)
    | none =>
      match cycle observer r with
      | .ok _ r => r.proceed config observer (cycles + 1) budget
      | .error e r => some (.error e r)

def run (config : ClockConfig) (observer : Observer α) (budget : Nat) (r : ClockRun α) :
    Option (EStateM.Result MachineError (ClockRun α) RunSummary) :=
  r.proceed config observer 0 budget

end ClockRun

end X25
