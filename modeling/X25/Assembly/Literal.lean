import X25.Text.Numeral
import X25.Word

/-! # Number literals

A literal is an optional minus sign and then binary digits after `0b`, hexadecimal digits after
`0x`, or decimal digits. Without the sign its value has to fit in a word; with it the value is
negated in two's complement and may be at most `2 ^ 31`.
-/

namespace X25.Literal

def magnitude? : List Char → Option Nat
  | '0' :: 'b' :: cs | '0' :: 'B' :: cs => Numeral.read? 2 cs
  | '0' :: 'x' :: cs | '0' :: 'X' :: cs => Numeral.read? 16 cs
  | cs => Numeral.read? 10 cs

def positive? (n : Nat) : Option Word :=
  if n < UInt32.size then some (.ofNat n) else none

/-- The two's complement of a number, for numbers that a sign may precede. -/
def negative? (n : Nat) : Option Word :=
  if n ≤ 0x80000000 then some (-(.ofNat n)) else none

def readList? : List Char → Option Word
  | '-' :: cs => (magnitude? cs).bind negative?
  | cs => (magnitude? cs).bind positive?

def read? (token : String) : Option Word :=
  readList? token.toList

/-- Whether a token is meant as a number, because it starts with a digit or a sign. -/
def isIntended (token : String) : Bool :=
  match token.toList with
  | c :: _ => c.isDigit || c == '-' || c == '+'
  | [] => false

end X25.Literal
