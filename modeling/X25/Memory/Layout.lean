import X25.Memory.AddressSpace

/-! # Memory layouts

A layout gives the machine two regions, working memory and a console. It is built into an address
space if both regions are of a permitted size and do not meet.
-/

namespace X25

structure Layout where
  ramStart : Word
  ramEnd : Word
  consoleStart : Word
  consoleEnd : Word
  deriving DecidableEq, Repr

namespace Layout

def standard : Layout :=
  ⟨0x0000, 0x0FFF, 0x1000, 0x10FF⟩

def ramSize (l : Layout) : Nat :=
  Region.span l.ramStart l.ramEnd

def consoleSize (l : Layout) : Nat :=
  Region.span l.consoleStart l.consoleEnd

def regionLimit : Nat := 0x1000000

def regionSize (first last : Word) : Except MapError Nat :=
  if last < first then .error (.inverted first last)
  else if regionLimit < Region.span first last then .error (.tooLarge first last regionLimit)
  else .ok (Region.span first last)

def mapRegions (l : Layout) (ram console : Nat) : EStateM MapError AddressSpace Unit := do
  AddressSpace.map l.ramStart l.ramEnd (.ram ram)
  AddressSpace.map l.consoleStart l.consoleEnd (.console console)

def space (l : Layout) : Except MapError AddressSpace := do
  let ram ← regionSize l.ramStart l.ramEnd
  let console ← regionSize l.consoleStart l.consoleEnd
  match l.mapRegions ram console .empty with
  | .ok _ s => return s
  | .error e _ => throw e

end Layout

end X25
