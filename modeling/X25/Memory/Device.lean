import X25.Text.Numeral
import X25.Word

/-! # Memory devices

A device holds words at addresses that count from its own start. The machine brings its own
devices, and works with any other: a device may refuse words, or change by itself when it is
written. A console stores words like working memory and also writes those that are a line feed or a
printable character to its sink, whether that succeeds or not.
-/

namespace X25

structure AddressFault where
  address : Word
  deriving DecidableEq, Repr

def AddressFault.message (f : AddressFault) : String :=
  "address fault at " ++ Numeral.hexMarked 8 f.address.toNat

/-- A word that a device refused. What it showed before is not taken back. -/
structure Refusal where
  fault : AddressFault
  shown : List Char
  deriving DecidableEq, Repr

class MemoryDevice (δ : Type) where
  name : δ → String
  length : δ → Nat
  get? : δ → Word → Option Word
  /-- Stores a word and says what is shown, or refuses it; what it changed before it refused the
  word stays. -/
  store : Word → Word → EStateM Refusal δ (List Char)

inductive Sink
  | shared | broken
  deriving DecidableEq, Repr

inductive SinkError
  | closed
  deriving DecidableEq, Repr

def Sink.write : Sink → Char → Except SinkError (List Char)
  | shared, c => .ok [c]
  | broken, _ => .error .closed

inductive DeviceKind
  | ram
  | console (sink : Sink)
  | short
  deriving DecidableEq, Repr

def DeviceKind.name : DeviceKind → String
  | ram => "ram"
  | console _ => "console"
  | short => "short"

/-- A store of words, and how many words it says it holds. -/
structure Device where
  kind : DeviceKind
  length : Nat
  cells : Array Word
  deriving DecidableEq, Repr

namespace Device

def ram (size : Nat) : Device :=
  ⟨.ram, size, .replicate size 0⟩

def console (size : Nat) : Device :=
  ⟨.console .shared, size, .replicate size 0⟩

def brokenConsole (size : Nat) : Device :=
  ⟨.console .broken, size, .replicate size 0⟩

def short (length size : Nat) : Device :=
  ⟨.short, length, .replicate size 0⟩

def name (d : Device) : String :=
  d.kind.name

def isEmpty (d : Device) : Bool :=
  d.length == 0

def holds (d : Device) (a : Word) : Bool :=
  decide (a.toNat < d.cells.size)

def get? (d : Device) (a : Word) : Option Word :=
  d.cells[a.toNat]?

/-- Replaces the word at an address; without a word there, nothing changes. -/
def put (d : Device) (a v : Word) : Device :=
  { d with cells := d.cells.setIfInBounds a.toNat v }

/-- The character that a word stands for: a line feed, or one of the printable ASCII. -/
def character? (v : Word) : Option Char :=
  if v = 0x0A ∨ (0x20 ≤ v ∧ v ≤ 0x7E) then some (Char.ofNat v.toNat) else none

/-- What the device shows when the word is stored. A console does not mind a sink that fails. -/
def shown (d : Device) (v : Word) : List Char :=
  match d.kind, character? v with
  | .console sink, some c =>
    match sink.write c with
    | .ok text => text
    | .error _ => []
  | _, _ => []

def shows (d : Device) : Bool :=
  d.kind == .console .shared

theorem shown_of_shows {d : Device} (h : d.shows = true) (v : Word) :
    d.shown v = (character? v).toList := by
  have hk : d.kind = .console .shared := eq_of_beq h
  rw [shown, hk]
  cases character? v <;> rfl

theorem shown_of_not_shows {d : Device} (h : d.shows = false) (v : Word) : d.shown v = [] := by
  obtain ⟨kind, length, cells⟩ := d
  rw [shown]
  cases kind with
  | ram | short => rfl
  | console sink =>
    cases sink with
    | shared => cases h
    | broken => cases character? v <;> rfl

def read (d : Device) (a : Word) : Except AddressFault Word :=
  match d.get? a with
  | some v => .ok v
  | none => .error ⟨a⟩

/-- Stores a word; the second part of the result is what is shown. -/
def write (d : Device) (a v : Word) : Except AddressFault (Device × List Char) :=
  if d.holds a then .ok (d.put a v, d.shown v) else .error ⟨a⟩

instance : MemoryDevice Device where
  name := name
  length := length
  get? := get?
  store a v d :=
    match d.write a v with
    | .ok (d', text) => .ok text d'
    | .error f => .error ⟨f, []⟩ d

def putAll (d : Device) (start : Nat) (ws : List Word) : Device :=
  { d with cells := (ws.foldl (fun (s : Array Word × Nat) w =>
      (s.1.setIfInBounds s.2 w, s.2 + 1)) (d.cells, start)).1 }

/-- Loads consecutive words if all of them have a place. -/
def load (d : Device) (start : Nat) (ws : List Word) :
    Except Panic (Except AddressFault Device) := do
  if d.cells.size < (← sizeSum start ws.length) then return .error ⟨.ofNat d.cells.size⟩
  return .ok (d.putAll start ws)

/-- Up to `count` words from a position on, with their positions. -/
def dump (d : Device) (start count : Nat) : Except Panic (List (Nat × Word)) := do
  let stop ← sizeSum start count
  return ((d.cells.extract start stop).toList).zipIdx start |>.map fun e => (e.2, e.1)

def clear (d : Device) : Device :=
  { d with cells := .replicate d.cells.size 0 }

theorem get?_put (d : Device) (a b v : Word) :
    (d.put a v).get? b = if a = b ∧ d.holds a then some v else d.get? b := by
  simp only [put, get?, holds, Array.getElem?_setIfInBounds, UInt32.toNat_inj, decide_eq_true_eq]
  by_cases h : a = b
  · subst h
    by_cases hs : a.toNat < d.cells.size <;> simp [hs]
  · simp [h]

theorem store_eq (d : Device) (a v : Word) :
    MemoryDevice.store a v d =
      if d.holds a then .ok (d.shown v) (d.put a v) else .error ⟨⟨a⟩, []⟩ d := by
  simp only [MemoryDevice.store, write]
  by_cases h : d.holds a <;> simp only [h, Bool.false_eq_true, if_true, if_false]

theorem get?_isSome (d : Device) (a : Word) : (d.get? a).isSome = d.holds a := by
  by_cases h : a.toNat < d.cells.size <;> simp [get?, holds, h]

end Device

end X25
