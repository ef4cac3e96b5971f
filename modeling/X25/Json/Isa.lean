import X25.Isa.Instruction
import X25.Json.Reading

/-! # Instructions as JSON

An instruction is an object with one member, named for its word format, that holds its parts.
Opcodes, conditions and registers are their names with small letters after the first.
-/

namespace X25

def Opcode.tag (o : Opcode) : String :=
  Text.titled o.mnemonic

def Condition.tag (c : Condition) : String :=
  Text.titled c.name

def Register.tag (r : Register) : String :=
  Text.titled r.name

def Format.tag : Format → String
  | register => "Register"
  | immediate => "Immediate"
  | jump => "Jump"

def Opcode.toJson (o : Opcode) : Json :=
  .string o.tag

def Opcode.ofJson? (j : Json) : Option Opcode :=
  j.oneOf? all tag

def Condition.toJson (c : Condition) : Json :=
  .string c.tag

def Condition.ofJson? (j : Json) : Option Condition :=
  j.oneOf? all tag

def Register.toJson (r : Register) : Json :=
  .string r.tag

def Register.ofJson? (j : Json) : Option Register :=
  j.oneOf? all tag

namespace Microcode

def toJson (m : Microcode) : Json :=
  .object [("zx", .bool m.zx), ("nx", .bool m.nx), ("zy", .bool m.zy), ("ny", .bool m.ny),
    ("f", .bool m.f), ("no", .bool m.no)]

def ofJson? (j : Json) : Option Microcode := do
  match ← j.members? ["zx", "nx", "zy", "ny", "f", "no"] with
  | [zx, nx, zy, ny, f, no] =>
    return ⟨← zx >>= Json.bool?, ← nx >>= Json.bool?, ← zy >>= Json.bool?, ← ny >>= Json.bool?,
      ← f >>= Json.bool?, ← no >>= Json.bool?⟩
  | _ => none

end Microcode

namespace Instruction

def toJson : Instruction → Json
  | register o c d s m =>
    .object [(Format.register.tag, .object [("opcode", o.toJson), ("condition", c.toJson),
      ("dest", d.toJson), ("src", s.toJson), ("alu", m.toJson)])]
  | immediate o c d m v =>
    .object [(Format.immediate.tag, .object [("opcode", o.toJson), ("condition", c.toJson),
      ("dest", d.toJson), ("alu", m.toJson), ("immediate", .ofWord v)])]
  | jump o c t =>
    .object [(Format.jump.tag, .object [("opcode", o.toJson), ("condition", c.toJson),
      ("target", .ofWord t)])]

def registerOfJson? (j : Json) : Option Instruction := do
  match ← j.members? ["opcode", "condition", "dest", "src", "alu"] with
  | [o, c, d, s, m] =>
    return register (← o >>= Opcode.ofJson?) (← c >>= Condition.ofJson?)
      (← d >>= Register.ofJson?) (← s >>= Register.ofJson?) (← m >>= Microcode.ofJson?)
  | _ => none

def immediateOfJson? (j : Json) : Option Instruction := do
  match ← j.members? ["opcode", "condition", "dest", "alu", "immediate"] with
  | [o, c, d, m, v] =>
    return immediate (← o >>= Opcode.ofJson?) (← c >>= Condition.ofJson?)
      (← d >>= Register.ofJson?) (← m >>= Microcode.ofJson?) (← v >>= Json.word?)
  | _ => none

def jumpOfJson? (j : Json) : Option Instruction := do
  match ← j.members? ["opcode", "condition", "target"] with
  | [o, c, t] =>
    return jump (← o >>= Opcode.ofJson?) (← c >>= Condition.ofJson?) (← t >>= Json.word?)
  | _ => none

def ofJson? (medium : Json.Medium) (j : Json) : Option Instruction := do
  let (tag, parts) ← j.marked? medium
  if tag = Format.register.tag then registerOfJson? parts
  else if tag = Format.immediate.tag then immediateOfJson? parts
  else if tag = Format.jump.tag then jumpOfJson? parts
  else none

end Instruction

end X25
