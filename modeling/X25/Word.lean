/-! # Words

The machine moves 32-bit words. Addresses are words too, and an instruction occupies two
consecutive ones. Where exact arithmetic on words or sizes leaves its type, the program panics.
-/

namespace X25

/-- Arithmetic on words is modulo `2 ^ 32`. -/
abbrev Word := UInt32

structure WordPair where
  low : Word
  high : Word
  deriving DecidableEq, Repr

namespace WordPair

def toList (p : WordPair) : List Word :=
  [p.low, p.high]

/-- Cuts a program into its pairs; a last word without a partner is left out. -/
def ofList : List Word → List WordPair
  | low :: high :: rest => ⟨low, high⟩ :: ofList rest
  | _ => []

end WordPair

def Word.toSigned (w : Word) : Int :=
  w.toInt32.toInt

/-- Why the program breaks off without a result: a sum is too large for its type, or a list for all
addresses. -/
inductive Panic
  | overflow | capacity
  deriving DecidableEq, Repr

def Word.addChecked (a b : Word) : Except Panic Word :=
  if a.toNat + b.toNat < UInt32.size then .ok (a + b) else .error .overflow

def sizeSum (m n : Nat) : Except Panic Nat :=
  if m + n < UInt64.size then .ok (m + n) else .error .overflow

end X25
