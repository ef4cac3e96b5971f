import X25.Memory.Device

/-! # The address space

Regions of the 32-bit addresses are backed by devices. A region is accepted only if it ends at or
after its start, meets no region mapped before, and its device says it holds enough words. An
address outside all regions is a fault. The characters that consoles have shown are part of the
state. The devices are the machine's own unless another type of devices is given.
-/

namespace X25

structure Region (δ : Type := Device) where
  first : Word
  last : Word
  device : δ
  deriving DecidableEq, Repr

namespace Region

variable {δ : Type}

def contains (r : Region δ) (a : Word) : Bool :=
  decide (r.first ≤ a ∧ a ≤ r.last)

def offset (r : Region δ) (a : Word) : Word :=
  a - r.first

def meets (r : Region δ) (first last : Word) : Bool :=
  decide (first ≤ r.last ∧ r.first ≤ last)

/-- The number of addresses from the first to the last; none if the last comes before. -/
def span (first last : Word) : Nat :=
  last.toNat + 1 - first.toNat

def size (r : Region δ) : Nat :=
  span r.first r.last

def get? [MemoryDevice δ] (r : Region δ) (a : Word) : Option Word :=
  MemoryDevice.get? r.device (r.offset a)

def put : Region → Word → Word → Region
  | ⟨first, last, device⟩, a, v => ⟨first, last, device.put (a - first) v⟩

@[simp] theorem offset_put (r : Region) (a v b : Word) : (r.put a v).offset b = r.offset b := rfl

@[simp] theorem contains_put (r : Region) (a v b : Word) :
    (r.put a v).contains b = r.contains b := rfl

theorem get?_put (r : Region) (a v b : Word) :
    (r.put a v).get? b = if a = b ∧ r.device.holds (r.offset a) then some v else r.get? b := by
  have hab : r.offset a = r.offset b ↔ a = b := UInt32.sub_left_inj r.first
  simp only [← hab]
  exact r.device.get?_put (r.offset a) (r.offset b) v

end Region

/-- Why a region is refused. It may overlap one that is told by the name of its device. -/
inductive MapError
  | inverted (first last : Word)
  | tooLarge (first last : Word) (limit : Nat)
  | overlap (first last : Word) (existing : String)
  | deviceTooSmall (device : String) (length needed : Nat)
  deriving DecidableEq, Repr

namespace MapError

def rangeText (first last : Word) : String :=
  "region " ++ Numeral.hexMarked 1 first.toNat ++ "..=" ++ Numeral.hexMarked 1 last.toNat

def message : MapError → String
  | inverted first last => rangeText first last ++ " ends before it starts"
  | tooLarge first last limit =>
    rangeText first last ++ " exceeds the " ++ Numeral.decimal limit ++ "-word limit"
  | overlap first last existing =>
    rangeText first last ++ " overlaps region `" ++ existing ++ "`"
  | deviceTooSmall device length needed =>
    "device `" ++ device ++ "` holds " ++ Numeral.decimal length ++
      " words but the region needs " ++ Numeral.decimal needed

end MapError

structure AddressSpace (δ : Type := Device) where
  regions : List (Region δ)
  output : String
  deriving DecidableEq, Repr

/-- Where an address lies: the position of its region, and the address within the device. -/
structure Location where
  region : Nat
  offset : Word
  deriving DecidableEq, Repr

namespace AddressSpace

section Devices

variable {δ : Type}

def empty : AddressSpace δ :=
  ⟨[], ""⟩

def locateIn (regions : List (Region δ)) (a : Word) : Option Location :=
  match regions with
  | [] => none
  | r :: rs =>
    if r.contains a then some ⟨0, r.offset a⟩
    else (locateIn rs a).map fun l => ⟨l.region + 1, l.offset⟩

def locate (s : AddressSpace δ) (a : Word) : Except AddressFault Location :=
  match locateIn s.regions a with
  | some l => .ok l
  | none => .error ⟨a⟩

def regionAt? (s : AddressSpace δ) (a : Word) : Option (Region δ) :=
  s.regions.find? (·.contains a)

def clearOutput (s : AddressSpace δ) : AddressSpace δ :=
  { s with output := "" }

variable [MemoryDevice δ]

open MemoryDevice

/-- Adds a region after all others. -/
def map (first last : Word) (device : δ) : EStateM MapError (AddressSpace δ) Unit := fun s =>
  if last < first then .error (.inverted first last) s
  else match s.regions.find? (·.meets first last) with
    | some r => .error (.overlap first last (name r.device)) s
    | none =>
      if length device < Region.span first last then
        .error (.deviceTooSmall (name device) (length device) (Region.span first last)) s
      else .ok () { s with regions := s.regions ++ [⟨first, last, device⟩] }

def get? (s : AddressSpace δ) (a : Word) : Option Word :=
  (s.regionAt? a).bind (·.get? a)

def read (s : AddressSpace δ) (a : Word) : Except AddressFault Word :=
  match s.get? a with
  | some v => .ok v
  | none => .error ⟨a⟩

def storeIn (a v : Word) : EStateM Refusal (List (Region δ)) (List Char)
  | [] => .error ⟨⟨a⟩, []⟩ []
  | r :: rs =>
    if r.contains a then
      match store (r.offset a) v r.device with
      | .ok text d => .ok text ({ r with device := d } :: rs)
      | .error refusal d => .error ⟨⟨a⟩, refusal.shown⟩ ({ r with device := d } :: rs)
    else
      match storeIn a v rs with
      | .ok text rs => .ok text (r :: rs)
      | .error refusal rs => .error refusal (r :: rs)

/-- Stores a word in the first region with the address. The fault is at this address, whatever the
device says. -/
def store (a v : Word) : EStateM AddressFault (AddressSpace δ) Unit := fun s =>
  match storeIn a v s.regions with
  | .ok text regions => .ok () ⟨regions, text.foldl String.push s.output⟩
  | .error ⟨f, text⟩ regions => .error f ⟨regions, text.foldl String.push s.output⟩

def write (s : AddressSpace δ) (a v : Word) : Except AddressFault (AddressSpace δ) :=
  match store a v s with
  | .ok _ s => .ok s
  | .error f _ => .error f

end Devices

/-- Whether there is a word at the address. -/
def holds (s : AddressSpace) (a : Word) : Bool :=
  (s.regionAt? a).any fun r => r.device.holds (r.offset a)

def putIn (a v : Word) : List Region → List Region
  | [] => []
  | r :: rs => if r.contains a then r.put a v :: rs else r :: putIn a v rs

/-- What is shown when the word is stored at the address. -/
def shown (s : AddressSpace) (a v : Word) : List Char :=
  match s.regionAt? a with
  | some r => r.device.shown v
  | none => []

def put (s : AddressSpace) (a v : Word) : AddressSpace :=
  let text := s.shown a v
  { regions := putIn a v s.regions, output := text.foldl String.push s.output }

def putAll (s : AddressSpace) (start : Word) : List Word → AddressSpace
  | [] => s
  | w :: ws => (s.put start w).putAll (start + 1) ws

theorem get?_isSome (s : AddressSpace) (a : Word) : (s.get? a).isSome = s.holds a := by
  unfold get? holds
  cases s.regionAt? a with
  | none => rfl
  | some r => exact r.device.get?_isSome (r.offset a)

theorem holds_of_get?_eq_some {s : AddressSpace} {a v : Word} (h : s.get? a = some v) :
    s.holds a = true := by
  rw [← get?_isSome, h, Option.isSome_some]

theorem holds_of_get?_eq_none {s : AddressSpace} {a : Word} (h : s.get? a = none) :
    s.holds a = false := by
  rw [← get?_isSome, h, Option.isSome_none]

/-- The machine's own devices refuse a word only where they hold none, and then do not change. -/
theorem storeIn_eq (a v : Word) (rs : List Region) :
    storeIn a v rs =
      if (rs.find? (·.contains a)).any (fun r => r.device.holds (r.offset a)) then
        .ok (((rs.find? (·.contains a)).map (·.device.shown v)).getD []) (putIn a v rs)
      else .error ⟨⟨a⟩, []⟩ rs := by
  induction rs with
  | nil => rfl
  | cons r rs ih =>
    by_cases ha : r.contains a
    · simp only [storeIn, putIn, ha, List.find?_cons, if_true, Device.store_eq, Option.any_some]
      by_cases hd : r.device.holds (r.offset a)
      · simp only [hd, if_true]
        rfl
      · simp only [hd, Bool.false_eq_true, if_false]
    · simp only [storeIn, putIn, ha, List.find?_cons, Bool.false_eq_true, if_false, ih]
      generalize (rs.find? (·.contains a)).any _ = holds
      cases holds <;> rfl

theorem store_of_holds {s : AddressSpace} {a : Word} (h : s.holds a = true) (v : Word) :
    store a v s = .ok () (s.put a v) := by
  have hf : (s.regions.find? (·.contains a)).any (fun r => r.device.holds (r.offset a)) = true := h
  have ht : ((s.regions.find? (·.contains a)).map (·.device.shown v)).getD [] = s.shown a v := by
    rw [shown, regionAt?]
    cases s.regions.find? (·.contains a) <;> rfl
  simp only [store, storeIn_eq, hf, if_true, ht]
  rfl

theorem store_of_not_holds {s : AddressSpace} {a : Word} (h : s.holds a = false) (v : Word) :
    store a v s = .error ⟨a⟩ s := by
  have hf : (s.regions.find? (·.contains a)).any (fun r => r.device.holds (r.offset a)) = false := h
  simp only [store, storeIn_eq, hf, Bool.false_eq_true, if_false, List.foldl_nil]

theorem contains_of_find? {rs : List Region} {a : Word} {r : Region}
    (h : rs.find? (·.contains a) = some r) : r.contains a = true := by
  simpa using List.find?_some h

/-- The region of an address is the same after a store, but for the word in its device if the
store went to that region. -/
theorem find?_putIn (a v b : Word) (rs : List Region) :
    (putIn a v rs).find? (·.contains b) =
      (rs.find? (·.contains b)).map fun r =>
        if rs.find? (·.contains a) = some r then r.put a v else r := by
  induction rs with
  | nil => rfl
  | cons r rs ih =>
    by_cases ha : r.contains a <;> by_cases hb : r.contains b
    · simp [putIn, ha, hb]
    · simp only [putIn, ha, hb, List.find?_cons, Region.contains_put, if_true]
      cases h : rs.find? (·.contains b) with
      | none => rfl
      | some s =>
        have hne : r ≠ s := by
          rintro rfl
          exact hb (contains_of_find? h)
        simp [hne]
    · have hne : rs.find? (·.contains a) ≠ some r := fun h => ha (contains_of_find? h)
      simp [putIn, ha, hb, hne]
    · simp only [putIn, ha, hb, List.find?_cons, Bool.false_eq_true, if_false]
      exact ih

theorem regionAt?_put (s : AddressSpace) (a v b : Word) :
    (s.put a v).regionAt? b =
      (s.regionAt? b).map fun r => if s.regionAt? a = some r then r.put a v else r :=
  find?_putIn a v b s.regions

theorem contains_of_regionAt? {s : AddressSpace} {a : Word} {r : Region}
    (h : s.regionAt? a = some r) : r.contains a = true :=
  contains_of_find? h

theorem get?_put (s : AddressSpace) (a v b : Word) :
    (s.put a v).get? b = if a = b ∧ s.holds a then some v else s.get? b := by
  simp only [get?, holds, regionAt?_put]
  cases hb : s.regionAt? b with
  | none =>
    by_cases h : a = b
    · subst h; simp [hb]
    · simp [h]
  | some r =>
    by_cases ha : s.regionAt? a = some r
    · simp [ha, Region.get?_put]
    · have hne : a ≠ b := by rintro rfl; exact ha hb
      simp [ha, hne]

end AddressSpace

end X25
