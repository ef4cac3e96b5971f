import X25.Json.Basic
import X25.Text.Letter
import X25.Word

/-! # Reading JSON values

A record is read from an object by the names of its members, in any order and with other members
ignored, or from an array by position. A name out of a finite list is read from a string, or from
an object with that name as its only member and nothing in it. The members of an object are as they
come in a text, where a name may come twice.
-/

namespace X25.Json

def bool? : Json → Option Bool
  | bool b => some b
  | _ => none

def natBelow? (bound : Nat) : Json → Option Nat
  | integer (.ofNat n) => if n < bound then some n else none
  | _ => none

def word? (j : Json) : Option Word :=
  (j.natBelow? UInt32.size).map .ofNat

def count? (j : Json) : Option Nat :=
  j.natBelow? UInt64.size

def ofWord (w : Word) : Json :=
  ofNat w.toNat

/-- A value or nothing, where nothing may also be written `null`. -/
def option? {α : Type} (read : Json → Option α) : Option Json → Option (Option α)
  | none => some none
  | some null => some none
  | some j => (read j).map some

def ofOption {α : Type} (write : α → Json) : Option α → Json
  | none => null
  | some a => write a

/-- The values of named members, none of which may come twice; of an array, the items in order. -/
def members? (names : List String) : Json → Option (List (Option Json))
  | object ms =>
    if ∀ n ∈ names, (ms.map Prod.fst).count n ≤ 1 then some (names.map fun n => ms.lookup n)
    else none
  | array items => if items.length = names.length then some (items.map some) else none
  | _ => none

/-- Whether a value is read off its text, or off a tree that was read before. -/
inductive Medium
  | text
  | tree
  deriving DecidableEq

/-- The parts of a value marked with a name: an object with this one member, itself an object or,
in a text, an array. -/
def marked? (medium : Medium) : Json → Option (String × Json)
  | object [(name, object ms)] => some (name, object ms)
  | object [(name, array items)] => if medium = .text then some (name, array items) else none
  | _ => none

def name? : Json → Option String
  | string s => some s
  | object [(s, null)] => some s
  | _ => none

def oneOf? {α : Type} (all : List α) (name : α → String) (j : Json) : Option α :=
  j.name?.bind fun s => all.find? (name · == s)

end X25.Json
