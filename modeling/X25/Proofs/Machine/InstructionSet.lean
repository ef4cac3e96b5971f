import X25.Isa.Codec
import X25.Proofs.Machine.Architecture

/-! # The instruction set

What an instruction does to all that a program can see, in one step and without phases, buses or
the wiring of the arithmetic unit. A step has no result where an address has no word, two words are
no instruction, a condition says nothing about flags, an operation is missing, or a constant is to
be written.
-/

namespace X25

/-- Whether an operand is one of the registers through which the memory is reached. -/
def Instruction.namesMemoryRegister : Instruction → Bool
  | register _ _ d s _ => d.isMemoryRegister || s.isMemoryRegister
  | immediate _ _ d _ _ => d.isMemoryRegister
  | jump .. => false

def Instruction.target? : Instruction → Option Register
  | register .aopr _ d _ _ | register .loadr _ d _ _ => some d
  | immediate .aopi _ d _ _ | immediate .load _ d _ _ => some d
  | _ => none

def Instruction.isArithmetic : Instruction → Bool
  | register .aopr .. | immediate .aopi .. => true
  | _ => false

namespace Architecture

variable (s : Architecture)

@[simp] theorem set_self (r : Register) (v : Word) : (s.set r v).registers r = v :=
  Function.update_self ..

theorem set_set (r : Register) (v w : Word) : (s.set r v).set r w = s.set r w := by
  simp only [set, Function.update_idem]

theorem set_of_ne {r r' : Register} (h : r' ≠ r) (v : Word) :
    (s.set r v).registers r' = s.registers r' :=
  Function.update_of_ne h ..

def pc : Word :=
  s.registers .pc

def fetch? : Option WordPair := do
  return ⟨← s.memory.get? s.pc, ← s.memory.get? (s.pc + 1)⟩

/-- The memory registers after a word was moved between memory and processor. -/
def accessed (a v : Word) : Architecture :=
  (s.set .mar a).set .mdr v

def fetched (p : WordPair) : Architecture :=
  (((s.accessed (s.pc + 1) p.high).set .ira p.low).set .irb p.high).set .pc (s.pc + 2)

def compute? (m : Microcode) (dest : Register) (y : Word) : Option Architecture :=
  let r := m.compute (s.registers dest) y
  if dest.isConstant then none else some { s.set dest r.1 with flags := r.2 }

def load? (dest : Register) (a : Word) : Option Architecture :=
  if dest.isConstant then none
  else (s.memory.get? a).map fun v => (s.accessed a v).set dest v

def store? (source : Register) (a : Word) : Option Architecture :=
  let v := s.registers source
  if s.memory.holds a then some { s.accessed a v with memory := s.memory.put a v } else none

def execute? : Instruction → Option Architecture
  | .register .aopr _ d r m => s.compute? m d (s.registers r)
  | .register .loadr _ d r _ => s.load? d (s.registers r)
  | .register .storr _ d r _ => s.store? d (s.registers r)
  | .immediate .aopi _ d m v => s.compute? m d v
  | .immediate .load _ d _ v => s.load? d v
  | .immediate .store _ d _ v => s.store? d v
  | .jump .nop _ _ => some s
  | .jump .jmp _ t => some (s.set .pc t)
  | .jump .b _ t => some (s.set .pc t)
  | _ => none

def conditionally? (i : Instruction) : Option Architecture :=
  match i.condition.evaluate s.flags with
  | .ok true => s.execute? i
  | .ok false => some s
  | .error _ => none

def instruction? : Option Instruction := do
  (Instruction.decode (← s.fetch?)).toOption

def step? : Option Architecture := do
  let p ← s.fetch?
  let i ← (Instruction.decode p).toOption
  (s.fetched p).conditionally? i

def run? : Nat → Architecture → Option Architecture
  | 0, s => some s
  | n + 1, s => s.step?.bind (run? n)

def cell? : Instruction → Option Word
  | .register .storr _ _ r _ => some (s.registers r)
  | .immediate .store _ _ _ v => some v
  | _ => none

/-- What an instruction leaves alone: the general registers other than its target, the words other
than the one it stores, and the flags unless it is arithmetic. -/
structure Framed (i : Instruction) (s s' : Architecture) : Prop where
  gps : ∀ g, i.target? ≠ some (.gp g) → s'.registers (.gp g) = s.registers (.gp g)
  cells : ∀ a, s.cell? i ≠ some a → s'.memory.get? a = s.memory.get? a
  flags : i.isArithmetic = false → s'.flags = s.flags

variable {s} {s' : Architecture} {i : Instruction} {d : Register} {a v : Word}

theorem framed_of_compute? {m : Microcode} (h : s.compute? m d v = some s')
    (hd : i.target? = some d) (hi : i.isArithmetic = true) : Framed i s s' := by
  rw [compute?] at h
  split at h <;> cases h
  refine ⟨fun g hg => set_of_ne s ?_ _, fun _ _ => rfl, fun hf => ?_⟩
  · rintro rfl
    exact hg hd
  · rw [hi] at hf
    cases hf

theorem framed_of_load? (h : s.load? d a = some s') (hd : i.target? = some d) :
    Framed i s s' := by
  rw [load?] at h
  split at h
  · cases h
  · obtain ⟨v, -, rfl⟩ := Option.map_eq_some_iff.mp h
    refine ⟨fun g hg => ?_, fun _ _ => rfl, fun _ => rfl⟩
    have hne : .gp g ≠ d := by
      rintro rfl
      exact hg hd
    rw [set_of_ne _ hne]
    rfl

theorem framed_of_store? (h : s.store? d a = some s') (ha : s.cell? i = some a) :
    Framed i s s' := by
  rw [store?] at h
  split at h <;> cases h
  refine ⟨fun _ _ => rfl, fun b hb => ?_, fun _ => rfl⟩
  have hne : a ≠ b := by
    rintro rfl
    exact hb ha
  simp only [AddressSpace.get?_put, hne, false_and, if_false]

theorem framed_of_execute? (h : s.execute? i = some s') : Framed i s s' := by
  cases i with
  | register o =>
    cases o with
    | aopr => exact framed_of_compute? h rfl rfl
    | loadr => exact framed_of_load? h rfl
    | storr => exact framed_of_store? h rfl
    | _ => cases h
  | immediate o =>
    cases o with
    | aopi => exact framed_of_compute? h rfl rfl
    | load => exact framed_of_load? h rfl
    | store => exact framed_of_store? h rfl
    | _ => cases h
  | jump o =>
    cases o with
    | nop | jmp | b => cases h; exact ⟨fun _ _ => rfl, fun _ _ => rfl, fun _ => rfl⟩
    | _ => cases h

theorem framed_of_conditionally? (h : s.conditionally? i = some s') : Framed i s s' := by
  rw [conditionally?] at h
  split at h
  · exact framed_of_execute? h
  · cases h
    exact ⟨fun _ _ => rfl, fun _ _ => rfl, fun _ => rfl⟩
  · cases h

theorem framed_of_step? {p : WordPair} (h : s.step? = some s') (hp : s.fetch? = some p)
    (hi : Instruction.decode p = .ok i) : Framed i (s.fetched p) s' := by
  rw [step?, hp] at h
  have hs : ((Instruction.decode p).toOption.bind (s.fetched p).conditionally?) = some s' := h
  rw [hi] at hs
  exact framed_of_conditionally? hs

end Architecture

end X25
