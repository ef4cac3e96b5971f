import X25.Assembly.Source

/-! # Printing instructions

Every instruction has a source line, which uses an alias where one exists. The line of an
instruction that is not canonical leaves parts out; a pair of words is therefore shown by its
instruction's line only if that line stands for the same words, and else as two raw words.
-/

namespace X25

def Head.text (h : Head) : String :=
  h.mnemonic.text ++ h.condition.suffix

/-- A source line before it is written: its head, and its operands as tokens. -/
structure SourceLine where
  head : Head
  operands : List String
  deriving DecidableEq, Repr

namespace SourceLine

def text (l : SourceLine) : String :=
  match l.operands with
  | [] => l.head.text
  | operands => l.head.text ++ " " ++ String.intercalate ", " operands

end SourceLine

def Literal.ofWord (w : Word) : String :=
  Numeral.hexMarked 1 w.toNat

namespace Instruction

def registerLine (c : Condition) (d s : Register) (m : Microcode) : SourceLine :=
  match BinaryAlias.ofMicrocode? m with
  | some a => ⟨⟨.binary a, c⟩, [d.name, s.name]⟩
  | none => ⟨⟨.opcode .aopr, c⟩, [d.name, s.name, m.text]⟩

/-- The line of an operation on a register and a value; a unary alias implies the value zero. -/
def immediateLine (c : Condition) (d : Register) (m : Microcode) (v : Word) : SourceLine :=
  match BinaryAlias.ofMicrocode? m, (UnaryAlias.ofMicrocode? m).filter fun _ => v = 0 with
  | some a, _ => ⟨⟨.binary a, c⟩, [d.name, Literal.ofWord v]⟩
  | none, some a => ⟨⟨.unary a, c⟩, [d.name]⟩
  | none, none => ⟨⟨.opcode .aopi, c⟩, [d.name, Literal.ofWord v, m.text]⟩

/-- The source line of an instruction. -/
def line : Instruction → SourceLine
  | register .aopr c d s m => registerLine c d s m
  | register .clz c _ _ _ => ⟨⟨.opcode .clz, c⟩, []⟩
  | register .clof c _ _ _ => ⟨⟨.opcode .clof, c⟩, []⟩
  | register .clng c _ _ _ => ⟨⟨.opcode .clng, c⟩, []⟩
  | register o c d s _ => ⟨⟨.opcode o, c⟩, [d.name, s.name]⟩
  | immediate .aopi c d m v => immediateLine c d m v
  | immediate o c d _ v => ⟨⟨.opcode o, c⟩, [d.name, Literal.ofWord v]⟩
  | jump .nop c _ => ⟨⟨.opcode .nop, c⟩, []⟩
  | jump o c t => ⟨⟨.opcode o, c⟩, [Literal.ofWord t]⟩

def text (i : Instruction) : String :=
  i.line.text

end Instruction

namespace Assembly

/-- The line of two raw words, the first with all its digits. -/
def rawLine (p : WordPair) : SourceLine :=
  ⟨⟨.words, .always⟩, [Numeral.hexMarked 8 p.low.toNat, Literal.ofWord p.high]⟩

/-- Whether a line stands for just these words. -/
def standsFor (text : String) (p : WordPair) : Bool :=
  match assembleLine text with
  | .ok (some q) => q == p
  | _ => false

/-- The source line of a pair of words. -/
def pairText (p : WordPair) : String :=
  match Instruction.decode p with
  | .ok i => if standsFor i.text p then i.text else (rawLine p).text
  | .error _ => (rawLine p).text

end Assembly

end X25
