import X25.Text.Numeral
import X25.Text.Letter

/-! # Microcode of the arithmetic unit

Six control bits choose what the arithmetic unit computes from its two inputs. Fifteen of the
sixty-four patterns have names.
-/

namespace X25

/-- Each input is replaced by zero, and then complemented, if its bits say so. The inputs are added,
or joined by "and", and the result is complemented if `no` is set. -/
structure Microcode where
  zx : Bool
  nx : Bool
  zy : Bool
  ny : Bool
  f : Bool
  no : Bool
  deriving DecidableEq, Repr

namespace Microcode

/-- The pattern in the six low bits of a number; higher bits do not count. -/
def ofBits (n : Nat) : Microcode :=
  ⟨n.testBit 5, n.testBit 4, n.testBit 3, n.testBit 2, n.testBit 1, n.testBit 0⟩

def bits (m : Microcode) : Nat :=
  32 * m.zx.toNat + 16 * m.nx.toNat + 8 * m.zy.toNat + 4 * m.ny.toNat + 2 * m.f.toNat +
    m.no.toNat

def transferA : Microcode := ofBits 0b001100
def transferB : Microcode := ofBits 0b110000
def addition : Microcode := ofBits 0b000010
def subtractB : Microcode := ofBits 0b010011
def subtractA : Microcode := ofBits 0b000111
def negateA : Microcode := ofBits 0b001111
def negateB : Microcode := ofBits 0b110011
def incrementA : Microcode := ofBits 0b011111
def incrementB : Microcode := ofBits 0b110111
def decrementA : Microcode := ofBits 0b001110
def decrementB : Microcode := ofBits 0b110010
def conjunction : Microcode := ofBits 0b000000
def disjunction : Microcode := ofBits 0b010101
def complementA : Microcode := ofBits 0b001101
def complementB : Microcode := ofBits 0b110001

/-- What an instruction without an arithmetic operation carries. -/
def zero : Microcode := ofBits 0

def named : List (String × Microcode) :=
  [("TransferA", transferA), ("TransferB", transferB), ("AdditionSigned", addition),
    ("AB_SubtractionSigned", subtractB), ("BA_SubtractionSigned", subtractA),
    ("A_Negative", negateA), ("B_Negative", negateB), ("A_Increment", incrementA),
    ("B_Increment", incrementB), ("A_Decrement", decrementA), ("B_Decrement", decrementB),
    ("LogicalAND", conjunction), ("LogicalOR", disjunction), ("A_LogicalNOT", complementA),
    ("B_LogicalNOT", complementB)]

def name? (m : Microcode) : Option String :=
  (named.find? (·.2 == m)).map (·.1)

def ofName? (s : String) : Option Microcode :=
  (named.find? fun e => Text.sameLetters e.1 s).map (·.2)

def text (m : Microcode) : String :=
  m.name?.getD (Numeral.binaryMarked 6 m.bits)

theorem ofBits_bits (m : Microcode) : ofBits m.bits = m := by
  rcases m with ⟨a, b, c, d, e, f⟩
  cases a <;> cases b <;> cases c <;> cases d <;> cases e <;> cases f <;> rfl

theorem bits_lt (m : Microcode) : m.bits < 64 := by
  rcases m with ⟨a, b, c, d, e, f⟩
  cases a <;> cases b <;> cases c <;> cases d <;> cases e <;> cases f <;> decide

end Microcode

end X25
