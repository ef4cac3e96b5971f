import X25.Assembly.Printer

/-! # Listings

A listing shows a program as source text: a title in comments, a line for each pair of words with
its address and its words in a comment, and a comment for a last word without a partner. Read as
source, a listing gives the program back.
-/

namespace X25.Assembly

def padRight (width : Nat) (s : String) : String :=
  String.ofList (s.toList.rightpad width ' ')

def listingTitle : String :=
  "; x25-32 disassembly\n; -----------------\n\n"

def listingLine (address : Nat) (p : WordPair) : String :=
  padRight 32 (pairText p) ++ "; " ++ Numeral.hex 4 address ++ ": " ++
    Numeral.hex 8 p.low.toNat ++ " " ++ Numeral.hex 8 p.high.toNat ++ "\n"

def listingLines (address : Nat) : List Word → List String
  | low :: high :: rest =>
    listingLine address ⟨low, high⟩ :: listingLines (address + 2) rest
  | [last] => ["; trailing word " ++ Numeral.hexMarked 8 last.toNat ++ "\n"]
  | [] => []

def listing (program : List Word) : String :=
  listingTitle ++ String.join (listingLines 0 program)

end X25.Assembly
