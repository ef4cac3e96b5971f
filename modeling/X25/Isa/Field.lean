import X25.Word

/-! # Bit fields

A field is a run of bits in a word. Reading and replacing a field are lawful for every position
and width, also where the field reaches beyond the highest bit of the word: the bits beyond it
are then lost.
-/

namespace X25

structure Field where
  shift : Nat
  width : Nat
  deriving DecidableEq, Repr

namespace Field

/-- Bits above the highest are dropped. -/
def shiftUp (w : Word) (n : Nat) : Word :=
  .ofBitVec (w.toBitVec <<< n)

def shiftDown (w : Word) (n : Nat) : Word :=
  .ofBitVec (w.toBitVec >>> n)

/-- The largest value of the field, cut to a word. -/
def max (f : Field) : Word :=
  .ofNat (Nat.pow 2 f.width - 1)

def mask (f : Field) : Word :=
  shiftUp f.max f.shift

def extract (f : Field) (w : Word) : Word :=
  shiftDown (w &&& f.mask) f.shift

/-- Replaces the field, taking the value modulo the field's size. -/
def insert (f : Field) (w v : Word) : Word :=
  (w &&& ~~~f.mask) ||| shiftUp (v &&& f.max) f.shift

def opcode : Field := ⟨26, 6⟩
def condition : Field := ⟨22, 4⟩
def dest : Field := ⟨17, 5⟩
def src : Field := ⟨12, 5⟩

def registerAlu : Field := ⟨6, 6⟩

def immediateAlu : Field := ⟨11, 6⟩

def registerUnused : Field := ⟨0, 6⟩

def immediateUnused : Field := ⟨0, 11⟩

def jumpUnused : Field := ⟨0, 22⟩

end Field

end X25
