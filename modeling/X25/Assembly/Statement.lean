import X25.Assembly.Literal
import X25.Assembly.Mnemonic
import X25.Isa.Codec
import X25.Text.Blank
import X25.Text.Capital

/-! # Statements of the assembly language

A line holds at most one statement: a mnemonic, perhaps with the suffix of a condition, and its
operands. A semicolon starts a comment; blanks and commas separate the tokens. Letters may have
either case. Each statement stands for two words.
-/

namespace X25

inductive LineError
  | unknownMnemonic (mnemonic : String)
  | unknownCondition (suffix : String)
  | unknownRegister (name : String)
  | malformedLiteral (token : String)
  | invalidMicrocode (token : String)
  | operandCount (mnemonic : String) (expected found : Nat)
  deriving DecidableEq, Repr

def LineError.message (line : Nat) : LineError → String
  | unknownMnemonic m => "unknown mnemonic on line " ++ Numeral.decimal line ++ ": " ++ m
  | unknownCondition s => "unknown condition suffix on line " ++ Numeral.decimal line ++ ": " ++ s
  | unknownRegister n => "unknown register on line " ++ Numeral.decimal line ++ ": " ++ n
  | malformedLiteral t => "malformed literal on line " ++ Numeral.decimal line ++ ": " ++ t
  | invalidMicrocode t => "invalid ALU microcode on line " ++ Numeral.decimal line ++ ": " ++ t
  | operandCount m expected found =>
    m ++ " on line " ++ Numeral.decimal line ++ " takes " ++ Numeral.decimal expected ++
      " operand(s), found " ++ Numeral.decimal found

structure Head where
  mnemonic : Mnemonic
  condition : Condition
  deriving DecidableEq, Repr

namespace Head

/-- Cuts off the last two bytes of the text's UTF-8 form, if they are whole characters and are
not the whole text. -/
def cutSuffix? (cs : List Char) : Option (List Char × List Char) :=
  match cs.reverse with
  | c :: d :: rest =>
    if c.utf8Size = 2 then some ((d :: rest).reverse, [c])
    else if c.utf8Size = 1 ∧ d.utf8Size = 1 ∧ rest ≠ [] then some (rest.reverse, [d, c])
    else none
  | _ => none

/-- Reads capital letters. A whole mnemonic wins over a shorter one with a suffix, so `CLNG` is
never `CL` under a condition. -/
def ofCapitals (cs : List Char) : Except LineError Head :=
  let whole := String.ofList cs
  match Mnemonic.ofText? whole with
  | some m => .ok ⟨m, .always⟩
  | none =>
    match cutSuffix? cs with
    | none => .error (.unknownMnemonic whole)
    | some (base, suffix) =>
      match Mnemonic.ofText? (.ofList base) with
      | none => .error (.unknownMnemonic whole)
      | some m =>
        match Condition.ofSuffix? (.ofList suffix) with
        | some c => .ok ⟨m, c⟩
        | none => .error (.unknownCondition (.ofList suffix))

def ofToken (token : String) : Except LineError Head :=
  ofCapitals (Text.capitalize token.toList)

end Head

namespace Operand

def register (token : String) : Except LineError Register :=
  match Register.ofName? token with
  | some r => .ok r
  | none => .error (.unknownRegister token)

def literal (token : String) : Except LineError Word :=
  match Literal.read? token with
  | some w => .ok w
  | none => .error (.malformedLiteral token)

/-- Microcode is a name, or a literal of at most six bits. -/
def microcode? (token : String) : Option Microcode :=
  Microcode.ofName? token <|>
    ((Literal.read? token).filter (· ≤ 0x3F)).map fun w => .ofBits w.toNat

def microcode (token : String) : Except LineError Microcode :=
  match microcode? token with
  | some m => .ok m
  | none => .error (.invalidMicrocode token)

end Operand

inductive Statement
  | instruction (i : Instruction)
  | raw (p : WordPair)
  deriving DecidableEq, Repr

namespace Statement

def words : Statement → WordPair
  | instruction i => i.encode
  | raw p => p

/-- The second operand of a binary alias is a number if it looks like one, else a register. -/
def ofBinary (a : BinaryAlias) (c : Condition) (first second : String) :
    Except LineError Statement := do
  let d ← Operand.register first
  if Literal.isIntended second then
    let v ← Operand.literal second
    return instruction (.immediate .aopi c d a.microcode v)
  else
    let s ← Operand.register second
    return instruction (.register .aopr c d s a.microcode)

def bare (o : Opcode) (c : Condition) : Instruction :=
  match o.format with
  | .jump => .jump o c 0
  | .immediate => .immediate o c .zero .zero 0
  | .register => .register o c .zero .zero .zero

/-- Reads the operands of an opcode. Those of `AOPI` are read register, microcode, literal. -/
def ofOpcode (o : Opcode) (c : Condition) (operands : List String) :
    Except LineError Statement := do
  match (Mnemonic.opcode o).form, operands with
  | .none, [] => return instruction (bare o c)
  | .target, [target] => return instruction (.jump o c (← Operand.literal target))
  | .immediate, [dest, value] =>
    let d ← Operand.register dest
    return instruction (.immediate o c d .zero (← Operand.literal value))
  | .registers, [dest, src] =>
    let d ← Operand.register dest
    return instruction (.register o c d (← Operand.register src) .zero)
  | .registersAlu, [dest, src, alu] =>
    let d ← Operand.register dest
    let s ← Operand.register src
    return instruction (.register o c d s (← Operand.microcode alu))
  | .immediateAlu, [dest, value, alu] =>
    let d ← Operand.register dest
    let m ← Operand.microcode alu
    return instruction (.immediate o c d m (← Operand.literal value))
  | form, _ => throw (.operandCount o.mnemonic form.arity operands.length)

def ofWords (c : Condition) (operands : List String) : Except LineError Statement := do
  if c ≠ .always then
    throw (.unknownMnemonic (Mnemonic.words.text ++ c.suffix))
  match operands with
  | [low, high] =>
    let l ← Operand.literal low
    return raw ⟨l, ← Operand.literal high⟩
  | _ => throw (.operandCount Mnemonic.words.text 2 operands.length)

def ofOperands (m : Mnemonic) (c : Condition) (operands : List String) :
    Except LineError Statement := do
  match m, operands with
  | .binary a, [first, second] => ofBinary a c first second
  | .binary a, _ => throw (.operandCount a.text 2 operands.length)
  | .unary a, [dest] =>
    return instruction (.immediate .aopi c (← Operand.register dest) a.microcode 0)
  | .unary a, _ => throw (.operandCount a.text 1 operands.length)
  | .opcode o, _ => ofOpcode o c operands
  | .words, _ => ofWords c operands

def ofTokens : List String → Except LineError (Option Statement)
  | [] => return none
  | head :: operands => do
    let h ← Head.ofToken head
    return some (← ofOperands h.mnemonic h.condition operands)

def isSeparator (c : Char) : Bool :=
  Text.isBlank c || c == ','

/-- The tokens before the first semicolon. -/
def tokens (line : List Char) : List String :=
  (((line.takeWhile (· != ';')).splitOnP isSeparator).filter (!·.isEmpty)).map String.ofList

def ofLine (line : List Char) : Except LineError (Option Statement) :=
  ofTokens (tokens line)

end Statement

end X25
