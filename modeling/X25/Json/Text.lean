import X25.Json.Basic

/-! # Reading JSON text

A text is read by two machines, one after the other. The first takes the characters and cuts them
into tokens, with the escapes of quoted texts resolved. The second takes the tokens and puts the
value together, with the brackets that are open on a stack.
-/

namespace X25.Json

/-! ## Tokens -/

inductive Token
  | openArray | closeArray | openObject | closeObject | comma | colon
  | text (s : String)
  | atom (j : Json)

inductive Piece
  | char (c : Char)
  | unit (n : Nat)

def isFirstHalf (n : Nat) : Bool :=
  0xD800 ≤ n && n < 0xDC00

def isSecondHalf (n : Nat) : Bool :=
  0xDC00 ≤ n && n < 0xE000

/-- The characters of a quoted text. Half a character cannot stand alone. -/
def characters? : List Piece → Option (List Char)
  | [] => some []
  | .char c :: ps => (characters? ps).map (c :: ·)
  | .unit n :: ps =>
    if isFirstHalf n then
      match ps with
      | .unit m :: ps =>
        if isSecondHalf m then
          (characters? ps).map (Char.ofNat (0x10000 + 0x400 * (n - 0xD800) + (m - 0xDC00)) :: ·)
        else none
      | _ => none
    else if isSecondHalf n then none
    else (characters? ps).map (Char.ofNat n :: ·)

/-- Whether no zero stands before another digit. -/
def isWhole : List Char → Bool
  | [] => false
  | [_] => true
  | c :: _ => c != '0'

def fraction? : List Char → Option (List Char × List Char)
  | '.' :: cs =>
    let ds := cs.takeWhile Char.isDigit
    if ds.isEmpty then none else some (ds, cs.dropWhile Char.isDigit)
  | cs => some ([], cs)

def exponent? : List Char → Option Int
  | [] => some 0
  | e :: cs =>
    if e = 'e' ∨ e = 'E' then
      match cs with
      | '-' :: ds => (Numeral.read? 10 ds).map fun n => -n
      | '+' :: ds => (Numeral.read? 10 ds).map Int.ofNat
      | ds => (Numeral.read? 10 ds).map Int.ofNat
    else none

/-- A number with a power of ten, with as many digits after the point as it needs but at least
one. -/
def scaled (n : Int) (places : Nat) (power : Int) : Json :=
  let places := places - power
  if 1 ≤ places then decimal n places.toNat
  else decimal (n * Int.pow 10 (1 - places).toNat) 1

/-- A number without its sign. One with a point or an exponent is not an integer, and neither is
zero with a sign. -/
def unsigned? (negative : Bool) (cs : List Char) : Option Json := do
  let whole := cs.takeWhile Char.isDigit
  let (places, rest) ← fraction? (cs.dropWhile Char.isDigit)
  let power ← exponent? rest
  let n ← Numeral.read? 10 (whole ++ places)
  let signed : Int := if negative then -n else n
  if !isWhole whole then none
  else if places.isEmpty && rest.isEmpty && !(negative && n == 0) then some (integer signed)
  else some (scaled signed places.length power)

def number? : List Char → Option Json
  | '-' :: cs => unsigned? true cs
  | cs => unsigned? false cs

def atom? (cs : List Char) : Option Json :=
  if cs = ['n', 'u', 'l', 'l'] then some null
  else if cs = ['t', 'r', 'u', 'e'] then some (bool true)
  else if cs = ['f', 'a', 'l', 's', 'e'] then some (bool false)
  else number? cs

/-- Where the first machine stands. -/
inductive Mode
  | between
  | word (cs : List Char)
  | quoted (ps : List Piece)
  | escape (ps : List Piece)
  | unit (ps : List Piece) (n left : Nat)

def isBlank (c : Char) : Bool :=
  c == ' ' || c == '\n' || c == '\r' || c == '\t'

def isWordChar (c : Char) : Bool :=
  c.isAlphanum || c == '-' || c == '+' || c == '.'

def punctuation : List (Char × Token) :=
  [('[', .openArray), (']', .closeArray), ('\x7b', .openObject), ('\x7d', .closeObject),
    (',', .comma), (':', .colon)]

def escapes : List (Char × Char) :=
  [('"', '"'), ('\\', '\\'), ('/', '/'), ('b', Char.ofNat 8), ('f', Char.ofNat 12), ('n', '\n'),
    ('r', '\r'), ('t', '\t')]

def start? (c : Char) : Option (List Token × Mode) :=
  if isWordChar c then some ([], .word [c])
  else if isBlank c then some ([], .between)
  else if c = '"' then some ([], .quoted [])
  else (punctuation.lookup c).map fun t => ([t], .between)

/-- Takes a character, and gives the tokens that end before it or with it. -/
def scanChar? : Mode → Char → Option (List Token × Mode)
  | .between, c => start? c
  | .word cs, c =>
    if isWordChar c then some ([], .word (cs ++ [c]))
    else do
      let j ← atom? cs
      let (ts, mode) ← start? c
      return (.atom j :: ts, mode)
  | .quoted ps, c =>
    if c = '"' then (characters? ps).map fun cs => ([.text (.ofList cs)], .between)
    else if c = '\\' then some ([], .escape ps)
    else if c.toNat < 32 then none
    else some ([], .quoted (ps ++ [.char c]))
  | .escape ps, c =>
    if c = 'u' then some ([], .unit ps 0 3)
    else (escapes.lookup c).map fun c => ([], .quoted (ps ++ [.char c]))
  | .unit ps n left, c => do
    let d ← Numeral.digit? 16 c
    match left with
    | 0 => return ([], .quoted (ps ++ [.unit (n * 16 + d)]))
    | left + 1 => return ([], .unit ps (n * 16 + d) left)

def scan? : Mode → List Char → Option (List Token)
  | .between, [] => some []
  | .word cs, [] => (atom? cs).map fun j => [.atom j]
  | _, [] => none
  | mode, c :: cs => do
    let (ts, mode) ← scanChar? mode c
    return ts ++ (← scan? mode cs)

/-! ## Values -/

inductive Frame
  | array (items : List Json)
  | object (members : List (String × Json)) (name : String)

/-- What the second machine waits for. -/
inductive Awaiting
  | value (outer : List Frame)
  | firstItem (outer : List Frame)
  | firstName (outer : List Frame)
  | name (members : List (String × Json)) (outer : List Frame)
  | colon (members : List (String × Json)) (name : String) (outer : List Frame)
  | afterItem (items : List Json) (outer : List Frame)
  | afterMember (members : List (String × Json)) (outer : List Frame)
  | nothing (j : Json)

/-- Hands a value to the innermost open bracket. -/
def complete (j : Json) : List Frame → Awaiting
  | [] => .nothing j
  | .array items :: outer => .afterItem (items ++ [j]) outer
  | .object members name :: outer => .afterMember (members ++ [(name, j)]) outer

def begin? (outer : List Frame) : Token → Option Awaiting
  | .openArray => some (.firstItem outer)
  | .openObject => some (.firstName outer)
  | .text s => some (complete (string s) outer)
  | .atom j => some (complete j outer)
  | _ => none

def take? : Awaiting → Token → Option Awaiting
  | .value outer, t => begin? outer t
  | .firstItem outer, .closeArray => some (complete (array []) outer)
  | .firstItem outer, t => begin? (.array [] :: outer) t
  | .firstName outer, .closeObject => some (complete (object []) outer)
  | .firstName outer, .text s => some (.colon [] s outer)
  | .name members outer, .text s => some (.colon members s outer)
  | .colon members s outer, .colon => some (.value (.object members s :: outer))
  | .afterItem items outer, .comma => some (.value (.array items :: outer))
  | .afterItem items outer, .closeArray => some (complete (array items) outer)
  | .afterMember members outer, .comma => some (.name members outer)
  | .afterMember members outer, .closeObject => some (complete (object members) outer)
  | _, _ => none

def build? (ts : List Token) : Option Json :=
  match ts.foldlM take? (.value []) with
  | some (.nothing j) => some j
  | _ => none

def ofText? (s : String) : Option Json :=
  (scan? .between s.toList).bind build?

end X25.Json
