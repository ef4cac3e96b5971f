import X25.Memory.Layout

/-! # Executables

An executable is a header of six words and a program. In its file form every word takes four
bytes, the highest first. The header names the version of the form, the two memory regions and
the address at which the program is entered.
-/

namespace X25

structure Header where
  version : Word
  layout : Layout
  entry : Word
  deriving DecidableEq, Repr

namespace Header

/-- Major, minor and patch version, a byte each. -/
def currentVersion : Word := 0x00010000

def size : Nat := 6

def ofLayout (l : Layout) : Header :=
  ⟨currentVersion, l, l.ramStart⟩

def words (h : Header) : List Word :=
  [h.version, h.layout.ramStart, h.layout.ramEnd, h.layout.consoleStart, h.layout.consoleEnd,
    h.entry]

end Header

structure Executable where
  header : Header
  program : List Word
  deriving DecidableEq, Repr

inductive ExecutableError
  | io (reason : String)
  | truncated (bytes : Nat)
  | oddLength (words : Nat)
  | version (found : Word)
  deriving DecidableEq, Repr

def ExecutableError.message : ExecutableError → String
  | io reason => "I/O error: " ++ reason
  | truncated n => "executable truncated: " ++ Numeral.decimal n ++ " bytes"
  | oddLength n => "program has an odd number of words (" ++ Numeral.decimal n ++ ")"
  | version found =>
    "version mismatch: expected " ++ Numeral.hexMarked 6 Header.currentVersion.toNat ++
      ", found " ++ Numeral.hexMarked 6 found.toNat

/-- The bytes of a word, the highest first. -/
def Word.toBytes (w : Word) : List UInt8 :=
  [(w >>> 24).toUInt8, (w >>> 16).toUInt8, (w >>> 8).toUInt8, w.toUInt8]

def Word.ofBytes (a b c d : UInt8) : Word :=
  (a.toUInt32 <<< 24) ||| (b.toUInt32 <<< 16) ||| (c.toUInt32 <<< 8) ||| d.toUInt32

/-- Reads bytes in groups of four; bytes that fill no group are left out. -/
def Word.ofByteList : List UInt8 → List Word
  | a :: b :: c :: d :: rest => Word.ofBytes a b c d :: Word.ofByteList rest
  | _ => []

namespace Executable

def ofProgram (program : List Word) : Executable :=
  ⟨.ofLayout .standard, program⟩

def toBytes (e : Executable) : List UInt8 :=
  (e.header.words ++ e.program).flatMap Word.toBytes

/-- Checks the version and then the length of a program that follows the header. -/
def ofWords (h : Header) (program : List Word) : Except ExecutableError Executable :=
  if h.version ≠ Header.currentVersion then .error (.version h.version)
  else if program.length % 2 ≠ 0 then .error (.oddLength program.length)
  else .ok ⟨h, program⟩

def ofBytes (bytes : List UInt8) : Except ExecutableError Executable :=
  match bytes.length % 4, Word.ofByteList bytes with
  | 0, v :: rs :: re :: cs :: ce :: entry :: program => ofWords ⟨v, ⟨rs, re, cs, ce⟩, entry⟩ program
  | _, _ => .error (.truncated bytes.length)

/-- The bytes to write to a file; the form has no program of odd length. -/
def save (e : Executable) : Except ExecutableError (List UInt8) :=
  if e.program.length % 2 ≠ 0 then .error (.oddLength e.program.length) else .ok e.toBytes

end Executable

end X25
