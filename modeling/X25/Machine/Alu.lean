import X25.Isa.Codec

/-! # The arithmetic unit

A pure function computes a result and four flags from two words under a microcode pattern. The
unit itself keeps both operands, the result and the flags; it takes the flags over only while
that is enabled.
-/

namespace X25

structure Flags where
  overflow : Bool
  zero : Bool
  negative : Bool
  carry : Bool
  deriving DecidableEq, Repr

def Flags.clear : Flags :=
  ⟨false, false, false, false⟩

namespace Microcode

/-- An input after it was replaced by zero and complemented, or not. -/
def input (zero complement : Bool) (w : Word) : Word :=
  let w := if zero then 0 else w
  if complement then ~~~w else w

def combine (m : Microcode) (x y : Word) : Word :=
  if m.f then x + y else x &&& y

/-- Whether the operation adds and the sum of the inputs exceeds a word. -/
def overflows (m : Microcode) (x y : Word) : Bool :=
  m.f && decide (UInt32.size ≤ x.toNat + y.toNat)

def compute (m : Microcode) (x y : Word) : Word × Flags :=
  let x := input m.zx m.nx x
  let y := input m.zy m.ny y
  let raw := m.combine x y
  let out := if m.no then ~~~raw else raw
  let carry := m.overflows x y
  (out, ⟨carry, out == 0, out >>> 31 == 1, carry⟩)

end Microcode

def Condition.evaluate (c : Condition) (flags : Flags) : Except DecodeError Bool :=
  match c with
  | always => .ok true
  | of => .ok flags.overflow
  | no => .ok !flags.overflow
  | zr => .ok flags.zero
  | nz => .ok !flags.zero
  | ng => .ok flags.negative
  | nn => .ok !flags.negative
  | eq | ne => .error (.unmappedCondition c)

/-- The operands, and what was computed last. A new result replaces the flags only while `latching`
is set. -/
structure Alu where
  a : Word
  b : Word
  out : Word
  operation : Microcode
  flags : Flags
  latching : Bool
  deriving DecidableEq, Repr

namespace Alu

def initial : Alu :=
  ⟨0, 0, 0, .zero, .clear, false⟩

def recompute (u : Alu) : Alu :=
  let r := u.operation.compute u.a u.b
  { u with out := r.1, flags := if u.latching then r.2 else u.flags }

def feedA (u : Alu) (v : Word) : Alu :=
  { u with a := v }.recompute

def feedB (u : Alu) (v : Word) : Alu :=
  { u with b := v }.recompute

end Alu

end X25
