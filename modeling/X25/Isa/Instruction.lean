import X25.Isa.Condition
import X25.Isa.Microcode
import X25.Isa.Opcode
import X25.Isa.Register
import X25.Word

/-! # Instructions

An instruction has the parts of one word format. It is well formed if that format is its opcode's,
and canonical if moreover the parts that its source form cannot express are zero.
-/

namespace X25

inductive Instruction
  | register (opcode : Opcode) (condition : Condition) (dest src : Register) (alu : Microcode)
  | immediate (opcode : Opcode) (condition : Condition) (dest : Register) (alu : Microcode)
      (value : Word)
  | jump (opcode : Opcode) (condition : Condition) (target : Word)
  deriving DecidableEq, Repr

namespace Instruction

def opcode : Instruction → Opcode
  | register o .. | immediate o .. | jump o .. => o

def condition : Instruction → Condition
  | register _ c .. | immediate _ c .. | jump _ c _ => c

def format : Instruction → Format
  | register .. => .register
  | immediate .. => .immediate
  | jump .. => .jump

def isWellFormed (i : Instruction) : Bool :=
  i.opcode.format == i.format

/-- Puts zero into the parts that the source form of the instruction cannot express. -/
def canonical : Instruction → Instruction
  | register .aopr c d s m => register .aopr c d s m
  | register .clz c _ _ _ => register .clz c .zero .zero .zero
  | register .clof c _ _ _ => register .clof c .zero .zero .zero
  | register .clng c _ _ _ => register .clng c .zero .zero .zero
  | register o c d s _ => register o c d s .zero
  | immediate .aopi c d m v => immediate .aopi c d m v
  | immediate o c d _ v => immediate o c d .zero v
  | jump .nop c _ => jump .nop c 0
  | jump o c t => jump o c t

def IsCanonical (i : Instruction) : Prop :=
  i.isWellFormed = true ∧ i.canonical = i

theorem format_canonical (i : Instruction) : i.canonical.format = i.format := by
  cases i with
  | register o => cases o <;> rfl
  | immediate o => cases o <;> rfl
  | jump o => cases o <;> rfl

theorem opcode_canonical (i : Instruction) : i.canonical.opcode = i.opcode := by
  cases i with
  | register o => cases o <;> rfl
  | immediate o => cases o <;> rfl
  | jump o => cases o <;> rfl

end Instruction

end X25
