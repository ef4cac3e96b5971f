/-! # Conditions

An instruction takes effect if its condition holds of the latched flags. `eq` and `ne` have a code
and a suffix but no meaning in flags.
-/

namespace X25

inductive Condition
  | always | eq | ne | of | no | zr | nz | ng | nn
  deriving DecidableEq, Repr

namespace Condition

def all : List Condition :=
  [always, eq, ne, of, no, zr, nz, ng, nn]

theorem mem_all (c : Condition) : c ∈ all := by
  cases c <;> decide

def code : Condition → Nat
  | always => 0
  | eq => 1
  | ne => 2
  | of => 3
  | no => 4
  | zr => 5
  | nz => 6
  | ng => 7
  | nn => 8

def ofCode? (n : Nat) : Option Condition :=
  all.find? (·.code == n)

def suffix : Condition → String
  | always => ""
  | eq => "EQ"
  | ne => "NE"
  | of => "OF"
  | no => "NO"
  | zr => "ZR"
  | nz => "NZ"
  | ng => "NG"
  | nn => "NN"

/-- The condition of a suffix in capital letters; the empty suffix is none. -/
def ofSuffix? (s : String) : Option Condition :=
  all.tail.find? (·.suffix == s)

def name : Condition → String
  | always => "ALWAYS"
  | c => c.suffix

theorem ofCode?_code (c : Condition) : ofCode? c.code = some c := by
  cases c <;> rfl

theorem code_of_ofCode? {n : Nat} {c : Condition} (h : ofCode? n = some c) : c.code = n := by
  simpa using List.find?_some h

theorem code_lt (c : Condition) : c.code < 16 := by
  cases c <;> decide

theorem suffix_of_ofSuffix? {s : String} {c : Condition} (h : ofSuffix? s = some c) :
    c.suffix = s := by
  simpa using List.find?_some h

end Condition

end X25
