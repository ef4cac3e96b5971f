import X25.Isa.Condition
import X25.Isa.Microcode
import X25.Isa.Opcode

/-! # Mnemonics

A line starts with a mnemonic: an opcode's own, an alias that stands for an arithmetic operation
with fixed microcode, or the mark of two raw words.
-/

namespace X25

/-- Aliases with a destination and a second operand, which is a register or a literal. -/
inductive BinaryAlias
  | mov | add | sub | and | or
  deriving DecidableEq, Repr

namespace BinaryAlias

def all : List BinaryAlias :=
  [mov, add, sub, and, or]

theorem mem_all (a : BinaryAlias) : a ∈ all := by
  cases a <;> decide

def text : BinaryAlias → String
  | mov => "MOV"
  | add => "ADD"
  | sub => "SUB"
  | and => "AND"
  | or => "OR"

def microcode : BinaryAlias → Microcode
  | mov => .transferB
  | add => .addition
  | sub => .subtractB
  | and => .conjunction
  | or => .disjunction

def ofMicrocode? (m : Microcode) : Option BinaryAlias :=
  all.find? (·.microcode == m)

end BinaryAlias

inductive UnaryAlias
  | inc | dec | not | neg
  deriving DecidableEq, Repr

namespace UnaryAlias

def all : List UnaryAlias :=
  [inc, dec, not, neg]

theorem mem_all (a : UnaryAlias) : a ∈ all := by
  cases a <;> decide

def text : UnaryAlias → String
  | inc => "INC"
  | dec => "DEC"
  | not => "NOT"
  | neg => "NEG"

def microcode : UnaryAlias → Microcode
  | inc => .incrementA
  | dec => .decrementA
  | not => .complementA
  | neg => .negateA

def ofMicrocode? (m : Microcode) : Option UnaryAlias :=
  all.find? (·.microcode == m)

end UnaryAlias

/-- Which operands follow a mnemonic. `either` is a register, and then a register or a literal. -/
inductive OperandForm
  | none | target | dest | either | registers | immediate | registersAlu | immediateAlu | words
  deriving DecidableEq, Repr

def OperandForm.arity : OperandForm → Nat
  | none => 0
  | target | dest => 1
  | either | registers | immediate | words => 2
  | registersAlu | immediateAlu => 3

inductive Mnemonic
  | binary (a : BinaryAlias)
  | unary (a : UnaryAlias)
  | opcode (o : Opcode)
  | words
  deriving DecidableEq, Repr

namespace Mnemonic

def all : List Mnemonic :=
  BinaryAlias.all.map binary ++ UnaryAlias.all.map unary ++ Opcode.all.map opcode ++ [words]

theorem mem_all (m : Mnemonic) : m ∈ all := by
  cases m with
  | binary a => cases a <;> decide
  | unary a => cases a <;> decide
  | opcode o => cases o <;> decide
  | words => decide

def text : Mnemonic → String
  | binary a => a.text
  | unary a => a.text
  | opcode o => o.mnemonic
  | words => ".WORD"

def ofText? (s : String) : Option Mnemonic :=
  all.find? (·.text == s)

def form : Mnemonic → OperandForm
  | binary _ => .either
  | unary _ => .dest
  | opcode .nop | opcode .clz | opcode .clof | opcode .clng => .none
  | opcode .jmp | opcode .b => .target
  | opcode .load | opcode .store => .immediate
  | opcode .aopr => .registersAlu
  | opcode .aopi => .immediateAlu
  | opcode _ => .registers
  | words => .words

theorem ofText?_text (m : Mnemonic) : ofText? m.text = some m := by
  cases m with
  | binary a => cases a <;> rfl
  | unary a => cases a <;> rfl
  | opcode o => cases o <;> rfl
  | words => rfl

theorem text_of_ofText? {s : String} {m : Mnemonic} (h : ofText? s = some m) : m.text = s := by
  simpa using List.find?_some h

end Mnemonic

end X25
