import X25.Text.Numeral

/-! # Descriptions of values

A description shows a value by its name and its parts in curly brackets, a list in square
brackets, and a text in quotation marks.
-/

namespace X25

inductive Description
  | atom (text : String)
  | quoted (text : String)
  | list (items : List Description)
  | record (name : String) (parts : List (String × Description))

namespace Description

mutual

def text : Description → String
  | atom t => t
  | quoted t => "\"" ++ t ++ "\""
  | list items => "[" ++ String.intercalate ", " (texts items) ++ "]"
  | record name parts => name ++ " \x7b " ++ String.intercalate ", " (partTexts parts) ++ " \x7d"

def texts : List Description → List String
  | [] => []
  | d :: ds => d.text :: texts ds

def partTexts : List (String × Description) → List String
  | [] => []
  | (name, d) :: ds => (name ++ ": " ++ d.text) :: partTexts ds

end

def nat (n : Nat) : Description :=
  atom (Numeral.decimal n)

def bool (b : Bool) : Description :=
  atom (if b then "true" else "false")

end Description

end X25
