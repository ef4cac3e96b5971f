import X25.Isa.Instruction
import X25.Machine.Datapath

/-! # Microprograms

The control unit works in small steps, each of which sets the arithmetic unit up or moves a word
over a bus. A microprogram is a list of such steps; it stops at the first that fails. Here are the
microprograms of fetching and of every instruction that has a routine.
-/

namespace X25

inductive MicroOp
  | operate (m : Microcode)
  | feedA (r : Register)
  | feedB (r : Register)
  | latchFlags
  | deliver (r : Register)
  deriving DecidableEq, Repr

namespace MicroOp

variable {δ : Type} [MemoryDevice δ]

def run : MicroOp → Datapath.Step δ Unit
  | operate m => Datapath.setOperation m
  | feedA r => discard <| Datapath.select .feedA (.register r) .aluA
  | feedB r => discard <| Datapath.select .feedB (.register r) .aluB
  | latchFlags => Datapath.setLatching true
  | deliver r => do
    discard <| Datapath.select .writeback .aluOut (.register r)
    Datapath.releaseWriteback

def runAll : List MicroOp → Datapath.Step δ Unit
  | [] => pure ()
  | op :: ops => do
    op.run
    runAll ops

def move (source dest : Register) : List MicroOp :=
  [operate .transferA, feedA source, deliver dest]

def load (dest : Register) : List MicroOp :=
  [operate .transferB, feedB .mdr, deliver dest]

/-- Computes from a register and an operand into the register. The flags are latched only when
both operands are in place. -/
def arithmetic (m : Microcode) (dest operand : Register) : List MicroOp :=
  [operate m, feedA dest, latchFlags, feedB operand, deliver dest]

def increment (source dest : Register) : List MicroOp :=
  [operate .incrementA, feedA source, deliver dest]

def fetchFirst : List MicroOp :=
  move .pc .mar ++ load .ira

def fetchSecond : List MicroOp :=
  increment .pc .mar ++ load .irb

def passInstruction : List MicroOp :=
  increment .pc .pc ++ increment .pc .pc

end MicroOp

open MicroOp in
/-- The microprogram of an instruction, if its opcode has one in its format. The second word of
the instruction is taken from its register. -/
def Instruction.routine? : Instruction → Option (List MicroOp)
  | register .aopr _ d s m => some (arithmetic m d s)
  | register .loadr _ d s _ => some (move s .mar ++ load d)
  | register .storr _ d s _ => some (move s .mar ++ move d .mdr)
  | immediate .aopi _ d m _ => some (arithmetic m d .irb)
  | immediate .load _ d _ _ => some (move .irb .mar ++ load d)
  | immediate .store _ d _ _ => some (move .irb .mar ++ move d .mdr)
  | jump .nop _ _ => some []
  | jump .jmp _ _ => some (move .irb .pc)
  | jump .b _ _ => some (move .irb .pc)
  | _ => none

theorem Instruction.routine?_isSome {i : Instruction} (h : i.isWellFormed = true) :
    i.routine?.isSome = i.opcode.isImplemented := by
  cases i with
  | register o => cases o <;> first | rfl | cases h
  | immediate o => cases o <;> first | rfl | cases h
  | jump o => cases o <;> first | rfl | cases h

end X25
