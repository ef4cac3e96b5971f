/-! # Numerals

Digits of natural numbers in the bases two, ten and sixteen. Writing uses the fewest digits and
small letters, padding adds zeros on the left, and reading takes letters of either case.
-/

namespace X25.Numeral

def digitValue? (c : Char) : Option Nat :=
  if '0' ≤ c ∧ c ≤ '9' then some (c.toNat - 48)
  else if 'a' ≤ c ∧ c ≤ 'f' then some (c.toNat - 87)
  else if 'A' ≤ c ∧ c ≤ 'F' then some (c.toNat - 55)
  else none

def digit? (base : Nat) (c : Char) : Option Nat :=
  (digitValue? c).filter (· < base)

/-- The number that a run of digits continues, after the number already read. -/
def readFrom? (base : Nat) (n : Nat) : List Char → Option Nat
  | [] => some n
  | c :: cs => (digit? base c).bind fun d => readFrom? base (n * base + d) cs

def read? (base : Nat) (cs : List Char) : Option Nat :=
  if cs.isEmpty then none else readFrom? base 0 cs

def digits (base width n : Nat) : List Char :=
  (Nat.toDigits base n).leftpad width '0'

def decimal (n : Nat) : String :=
  String.ofList (digits 10 1 n)

def hex (width n : Nat) : String :=
  String.ofList (digits 16 width n)

def hexCapital (width n : Nat) : String :=
  String.ofList ((digits 16 width n).map Char.toUpper)

def hexMarked (width n : Nat) : String :=
  "0x" ++ hex width n

def binaryMarked (width n : Nat) : String :=
  "0b" ++ String.ofList (digits 2 width n)

def signed : Int → String
  | .ofNat n => decimal n
  | .negSucc n => "-" ++ decimal (n + 1)

@[simp] theorem readFrom?_nil (base n : Nat) : readFrom? base n [] = some n := rfl

@[simp] theorem readFrom?_cons (base n : Nat) (c : Char) (cs : List Char) :
    readFrom? base n (c :: cs) =
      (digit? base c).bind fun d => readFrom? base (n * base + d) cs := rfl

theorem readFrom?_append (base n : Nat) (cs ds : List Char) :
    readFrom? base n (cs ++ ds) = (readFrom? base n cs).bind (readFrom? base · ds) := by
  induction cs generalizing n with
  | nil => rfl
  | cons c cs ih =>
    cases h : digit? base c with
    | none => simp [h]
    | some d => simp [h, ih]

end X25.Numeral
