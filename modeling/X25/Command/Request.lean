import X25.Text.Numeral

/-! # Requests

The command line: a command, its settings and its operands. A setting is a long name after two
dashes or a letter after one; letters may share a dash; a value follows as the next argument, or
after an equals sign, or directly after a letter. After two dashes alone all is operands.
-/

namespace X25

/-- How to run a program. The pause between cycles is in milliseconds. -/
structure RunSettings where
  limit : Nat
  pause : Nat
  manual : Bool
  trace : Bool
  json : Bool
  deriving DecidableEq, Repr

inductive Request
  | banner
  | version
  | run (program : String) (settings : RunSettings)
  | debug (program : String)
  | assemble (source : String) (output : Option String)
  | disassemble (program : String)
  deriving DecidableEq, Repr

namespace Request

structure Setting where
  long : String
  short : Option Char
  hasValue : Bool

/-- What has been read of a command line: settings with their values, operands, the setting whose
value comes next, and whether all that comes is operands. -/
structure Arguments where
  settings : List (String × String)
  operands : List String
  awaited : Option String
  onlyOperands : Bool

namespace Arguments

def initial : Arguments :=
  ⟨[], [], none, false⟩

def addSetting (a : Arguments) (name value : String) : Arguments :=
  { a with settings := a.settings ++ [(name, value)] }

def addOperand (a : Arguments) (text : String) : Arguments :=
  { a with operands := a.operands ++ [text] }

/-- Reads a long setting, perhaps with a value after an equals sign. -/
def long? (known : List Setting) (a : Arguments) (text : List Char) : Option Arguments := do
  let s ← known.find? (·.long.toList == text.takeWhile (· != '='))
  match text.dropWhile (· != '='), s.hasValue with
  | [], false => return a.addSetting s.long ""
  | [], true => return { a with awaited := some s.long }
  | _ :: value, true => return a.addSetting s.long (.ofList value)
  | _ :: _, false => none

/-- Reads the letters after a dash. The first that has a value takes the others as its value. -/
def letters? (known : List Setting) (a : Arguments) : List Char → Option Arguments
  | [] => some a
  | c :: cs => do
    let s ← known.find? (·.short == some c)
    if s.hasValue then
      match cs with
      | [] => return { a with awaited := some s.long }
      | '=' :: value => return a.addSetting s.long (.ofList value)
      | value => return a.addSetting s.long (.ofList value)
    else letters? known (a.addSetting s.long "") cs

/-- Reads the next argument. What starts with a dash is no value. -/
def next? (known : List Setting) (a : Arguments) (arg : String) : Option Arguments :=
  if a.onlyOperands then some (a.addOperand arg)
  else match a.awaited, arg.toList with
    | some _, '-' :: _ :: _ => none
    | some name, _ => some { a.addSetting name arg with awaited := none }
    | none, ['-', '-'] => some { a with onlyOperands := true }
    | none, '-' :: '-' :: text => long? known a text
    | none, '-' :: c :: cs => letters? known a (c :: cs)
    | none, _ => some (a.addOperand arg)

end Arguments

/-- One operand and settings, none of which is given twice. -/
def single? (known : List Setting) (args : List String) :
    Option (String × List (String × String)) := do
  let a ← args.foldlM (Arguments.next? known) .initial
  match a.operands, a.awaited with
  | [operand], none =>
    if known.all fun s => (a.settings.filter (·.1 == s.long)).length ≤ 1 then
      return (operand, a.settings)
    else none
  | _, _ => none

/-- A count below `2 ^ 64`; a plus sign may stand before it. -/
def count? (text : String) : Option Nat :=
  let digits := match text.toList with
    | '+' :: cs => cs
    | cs => cs
  (Numeral.read? 10 digits).filter (· < UInt64.size)

def runKnown : List Setting :=
  [⟨"max-cycles", some 'm', true⟩, ⟨"period-ms", some 'p', true⟩, ⟨"manual", none, false⟩,
    ⟨"trace", some 't', false⟩, ⟨"json", none, false⟩]

def run? (args : List String) : Option Request := do
  let (program, settings) ← single? runKnown args
  let limit ← match settings.lookup "max-cycles" with
    | some text => count? text
    | none => some 10000
  let pause ← match settings.lookup "period-ms" with
    | some text => count? text
    | none => some 0
  let has (name : String) : Bool := (settings.lookup name).isSome
  return run program ⟨limit, pause, has "manual", has "trace", has "json"⟩

def assemble? (args : List String) : Option Request := do
  let (source, settings) ← single? [⟨"output", some 'o', true⟩] args
  return assemble source (settings.lookup "output")

def ofArguments? : List String → Option Request
  | [] => some banner
  | "--version" :: _ | "-V" :: _ => some version
  | "run" :: args => run? args
  | "debug" :: args => (single? [] args).map fun a => debug a.1
  | "asm" :: args => assemble? args
  | "disasm" :: args => (single? [] args).map fun a => disassemble a.1
  | _ => none

end Request

end X25
