import X25.Text.Numeral

/-! # JSON values

Values of the JSON format, with the members of an object in their order, and two printers: one
without blanks, and one that gives every item a line of its own.
-/

namespace X25

inductive Json
  | null
  | bool (b : Bool)
  | integer (n : Int)
  /-- A number with a fraction: the digits before and after the point, and how many stand after
  it. -/
  | decimal (digits : Int) (places : Nat)
  | string (s : String)
  | array (items : List Json)
  | object (members : List (String × Json))
  deriving Inhabited

namespace Json

def escape (c : Char) : List Char :=
  if c = '"' then ['\\', '"']
  else if c = '\\' then ['\\', '\\']
  else if c = '\n' then ['\\', 'n']
  else if c = '\r' then ['\\', 'r']
  else if c = '\t' then ['\\', 't']
  else if c.toNat = 8 then ['\\', 'b']
  else if c.toNat = 12 then ['\\', 'f']
  else if c.toNat < 32 then '\\' :: 'u' :: Numeral.digits 16 4 c.toNat
  else [c]

def quote (s : String) : String :=
  "\"" ++ String.ofList (s.toList.flatMap escape) ++ "\""

def decimalText (digits : Int) (places : Nat) : String :=
  let ds := Numeral.digits 10 (places + 1) digits.natAbs
  let sign := if digits < 0 then "-" else ""
  sign ++ String.ofList (ds.take (ds.length - places)) ++ "." ++
    String.ofList (ds.drop (ds.length - places))

def ofNat (n : Nat) : Json :=
  integer n

mutual

/-- The text of a value, without blanks. -/
def compact : Json → String
  | null => "null"
  | bool b => if b then "true" else "false"
  | integer n => Numeral.signed n
  | decimal n places => decimalText n places
  | string s => quote s
  | array items => "[" ++ String.intercalate "," (compactItems items) ++ "]"
  | object members => "\x7b" ++ String.intercalate "," (compactMembers members) ++ "\x7d"

def compactItems : List Json → List String
  | [] => []
  | j :: js => j.compact :: compactItems js

def compactMembers : List (String × Json) → List String
  | [] => []
  | (name, j) :: js => (quote name ++ ":" ++ j.compact) :: compactMembers js

end

def lineBreak (depth : Nat) : String :=
  "\n" ++ String.ofList (.replicate (2 * depth) ' ')

def indentedBlock (left right : String) (depth : Nat) (items : List String) : String :=
  if items.isEmpty then left ++ right
  else left ++ lineBreak (depth + 1) ++
    String.intercalate ("," ++ lineBreak (depth + 1)) items ++ lineBreak depth ++ right

mutual

/-- The text of a value at a nesting depth, with an item on each line. -/
def indented (depth : Nat) : Json → String
  | array items => indentedBlock "[" "]" depth (indentedItems (depth + 1) items)
  | object members =>
    indentedBlock "\x7b" "\x7d" depth (indentedMembers (depth + 1) members)
  | null => compact null
  | bool b => compact (bool b)
  | integer n => compact (integer n)
  | decimal n places => compact (decimal n places)
  | string s => compact (string s)

def indentedItems (depth : Nat) : List Json → List String
  | [] => []
  | j :: js => j.indented depth :: indentedItems depth js

def indentedMembers (depth : Nat) : List (String × Json) → List String
  | [] => []
  | (name, j) :: js => (quote name ++ ": " ++ j.indented depth) :: indentedMembers depth js

end

end Json

end X25
