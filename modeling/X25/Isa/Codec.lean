import X25.Isa.Field
import X25.Isa.Instruction

/-! # Encoding and decoding of instructions

Encoding fills the fields of the first word and leaves the rest zero. Decoding reads the fields in
a fixed order and refuses a pair of words at the first defect: unknown opcode, unknown condition,
bits in an unused place, unknown destination, unknown source.
-/

namespace X25

inductive DecodeError
  | unknownOpcode (code : Nat)
  | unknownCondition (code : Nat)
  | unknownRegister (code : Nat)
  /-- Unused bits that are set in the first (0) or second (1) word. -/
  | reservedBits (word : Nat) (bits : Word)
  | unmappedCondition (condition : Condition)
  deriving DecidableEq, Repr

def DecodeError.message : DecodeError → String
  | unknownOpcode n => "unknown opcode: 0x" ++ Numeral.hexCapital 2 n
  | unknownCondition n => "unknown condition code: " ++ Numeral.decimal n
  | unknownRegister n => "unknown register code: 0x" ++ Numeral.hexCapital 2 n
  | reservedBits word bits =>
    "reserved bits set in word " ++ Numeral.decimal word ++ ": 0x" ++
      Numeral.hexCapital 8 bits.toNat
  | unmappedCondition c => "condition " ++ c.name ++ " has no flag mapping"

def Opcode.decode (code : Nat) : Except DecodeError Opcode :=
  match ofCode? code with
  | some o => .ok o
  | none => .error (.unknownOpcode code)

def Condition.decode (code : Nat) : Except DecodeError Condition :=
  match ofCode? code with
  | some c => .ok c
  | none => .error (.unknownCondition code)

def Register.decode (code : Nat) : Except DecodeError Register :=
  match ofCode? code with
  | some r => .ok r
  | none => .error (.unknownRegister code)

namespace Instruction

def header (o : Opcode) (c : Condition) : Word :=
  Field.condition.insert (Field.opcode.insert 0 (.ofNat o.code)) (.ofNat c.code)

def encode : Instruction → WordPair
  | register o c d s m =>
    let low := Field.dest.insert (header o c) (.ofNat d.code)
    let low := Field.src.insert low (.ofNat s.code)
    ⟨Field.registerAlu.insert low (.ofNat m.bits), 0⟩
  | immediate o c d m v =>
    let low := Field.dest.insert (header o c) (.ofNat d.code)
    ⟨Field.immediateAlu.insert low (.ofNat m.bits), v⟩
  | jump o c t => ⟨header o c, t⟩

def checkUnused (word : Nat) (bits : Word) : Except DecodeError Unit :=
  if bits = 0 then .ok () else .error (.reservedBits word bits)

def decodeRegister (o : Opcode) (c : Condition) (p : WordPair) :
    Except DecodeError Instruction := do
  checkUnused 0 (p.low &&& Field.registerUnused.mask)
  checkUnused 1 p.high
  let d ← Register.decode (Field.dest.extract p.low).toNat
  let s ← Register.decode (Field.src.extract p.low).toNat
  return register o c d s (.ofBits (Field.registerAlu.extract p.low).toNat)

def decodeImmediate (o : Opcode) (c : Condition) (p : WordPair) :
    Except DecodeError Instruction := do
  checkUnused 0 (p.low &&& Field.immediateUnused.mask)
  let d ← Register.decode (Field.dest.extract p.low).toNat
  return immediate o c d (.ofBits (Field.immediateAlu.extract p.low).toNat) p.high

def decodeJump (o : Opcode) (c : Condition) (p : WordPair) : Except DecodeError Instruction := do
  checkUnused 0 (p.low &&& Field.jumpUnused.mask)
  return jump o c p.high

def decode (p : WordPair) : Except DecodeError Instruction := do
  let o ← Opcode.decode (Field.opcode.extract p.low).toNat
  let c ← Condition.decode (Field.condition.extract p.low).toNat
  match o.format with
  | .register => decodeRegister o c p
  | .immediate => decodeImmediate o c p
  | .jump => decodeJump o c p

end Instruction

end X25
