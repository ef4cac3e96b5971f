/-! # Opcodes

Seventeen operations with six-bit codes. Each has one of three word formats. Eight of them have a
code but no routine in the control unit.
-/

namespace X25

/-- How an instruction lays out its two words: two registers and microcode, and a word of zero; one
register and microcode, and a word of data; or a target address. -/
inductive Format
  | register
  | immediate
  | jump
  deriving DecidableEq, Repr

inductive Opcode
  | nop | jmp | b
  | aopr | aopi
  | loadr | storr | load | store
  | clz | clof | clng | mul | shl | shr | rol | ror
  deriving DecidableEq, Repr

namespace Opcode

def all : List Opcode :=
  [nop, jmp, b, aopr, aopi, loadr, storr, load, store, clz, clof, clng, mul, shl, shr, rol, ror]

theorem mem_all (o : Opcode) : o ∈ all := by
  cases o <;> decide

def code : Opcode → Nat
  | nop => 0x00
  | jmp => 0x01
  | b => 0x02
  | aopr => 0x08
  | aopi => 0x09
  | loadr => 0x10
  | storr => 0x11
  | load => 0x12
  | store => 0x13
  | clz => 0x18
  | clof => 0x19
  | clng => 0x1A
  | mul => 0x20
  | shl => 0x21
  | shr => 0x22
  | rol => 0x23
  | ror => 0x24

def ofCode? (n : Nat) : Option Opcode :=
  all.find? (·.code == n)

def format : Opcode → Format
  | nop | jmp | b => .jump
  | aopi | load | store => .immediate
  | aopr | loadr | storr | clz | clof | clng | mul | shl | shr | rol | ror => .register

def mnemonic : Opcode → String
  | nop => "NOP"
  | jmp => "JMP"
  | b => "B"
  | aopr => "AOPR"
  | aopi => "AOPI"
  | loadr => "LOADR"
  | storr => "STORR"
  | load => "LOAD"
  | store => "STORE"
  | clz => "CLZ"
  | clof => "CLOF"
  | clng => "CLNG"
  | mul => "MUL"
  | shl => "SHL"
  | shr => "SHR"
  | rol => "ROL"
  | ror => "ROR"

def isImplemented : Opcode → Bool
  | clz | clof | clng | mul | shl | shr | rol | ror => false
  | _ => true

theorem ofCode?_code (o : Opcode) : ofCode? o.code = some o := by
  cases o <;> rfl

theorem code_of_ofCode? {n : Nat} {o : Opcode} (h : ofCode? n = some o) : o.code = n := by
  simpa using List.find?_some h

theorem code_lt (o : Opcode) : o.code < 64 := by
  cases o <;> decide

end Opcode

end X25
