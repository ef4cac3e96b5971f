import X25.Text.Letter
import X25.Text.Numeral

/-! # Registers

The twenty-three registers that an instruction can name: two constants, the program counter, four
registers of the memory and instruction path, and sixteen for general use.
-/

namespace X25

/-- The memory data register `mdr` is a window on the word at the address in `mar`. The words of the
instruction are in `ira` and `irb`. -/
inductive Register
  | zero | one | pc | mar | mdr | ira | irb
  | gp (i : Fin 16)
  deriving DecidableEq, Repr

namespace Register

def gps : List Register :=
  (List.finRange 16).map gp

def all : List Register :=
  [zero, one, pc, mar, mdr, ira, irb] ++ gps

theorem mem_all (r : Register) : r ∈ all := by
  cases r <;> simp [all, gps]

def gpIndex? : Register → Option (Fin 16)
  | gp i => some i
  | _ => none

def code : Register → Nat
  | zero => 0
  | one => 1
  | pc => 2
  | mar => 3
  | mdr => 4
  | ira => 5
  | irb => 6
  | gp i => 16 + i.val

def ofCode? (n : Nat) : Option Register :=
  all.find? (·.code == n)

def name : Register → String
  | zero => "ZERO"
  | one => "ONE"
  | pc => "PC"
  | mar => "MAR"
  | mdr => "MDR"
  | ira => "IRA"
  | irb => "IRB"
  | gp i => "GP" ++ Numeral.decimal i.val

def ofName? (s : String) : Option Register :=
  all.find? fun r => Text.sameLetters r.name s

theorem ofCode?_code (r : Register) : ofCode? r.code = some r := by
  cases r with
  | gp i => revert i; decide
  | _ => rfl

theorem code_of_ofCode? {n : Nat} {r : Register} (h : ofCode? n = some r) : r.code = n := by
  simpa using List.find?_some h

theorem code_lt (r : Register) : r.code < 32 := by
  cases r with
  | gp i => simp [code]; omega
  | _ => decide

end Register

end X25
