import X25.Proofs.Machine.InstructionSet
import X25.Proofs.Machine.Latching

/-! # Routines

The routines of all instructions come in five kinds. A program sees each of them as a few transfers
between registers, with the errors that these can meet. While the memory data register holds the
word that the memory address register points at, it is read like any other register, and every
routine has an outcome that can be said in one equation. If its operands are no memory registers,
this is what the instruction set says.
-/

namespace X25

open Effect

namespace Architecture

variable (s : Architecture)

theorem read_of_ne_mdr {r : Register} (h : r ≠ .mdr) : read r s = .ok (s.registers r) s := by
  rw [read, if_neg h]

theorem write_plain {r : Register} (hc : r.isConstant = false) (h : r ≠ .mdr) (v : Word) :
    write r v s = .ok () (s.set r v) := by
  simp only [write, hc, Bool.false_eq_true, if_false, if_neg h]

theorem write_constant {r : Register} (h : r.isConstant = true) (v : Word) :
    write r v s = .error (.fabric (.access ⟨.register r⟩)) s := by
  simp only [write, h, if_true]

theorem send_plain {source dest : Register} (hs : source ≠ .mdr) (hc : dest.isConstant = false)
    (hd : dest ≠ .mdr) (f : Word → Word) :
    send f source dest s = .ok () (s.set dest (f (s.registers source))) := by
  rw [send, bind_of_ok (read_of_ne_mdr s hs), write_plain s hc hd]

theorem read_mdr_of_some {a v : Word} (h : s.memory.get? a = some v) :
    read .mdr (s.set .mar a) = .ok v (s.accessed a v) := by
  have hm : (s.set .mar a).memory.get? ((s.set .mar a).registers .mar) = some v := by
    rw [set_self]
    exact h
  simp only [read, if_true, hm]
  rfl

theorem read_mdr_of_none {a : Word} (h : s.memory.get? a = none) :
    read .mdr (s.set .mar a) = .error (.address ⟨a⟩) (s.set .mar a) := by
  have hm : (s.set .mar a).memory.get? ((s.set .mar a).registers .mar) = none := by
    rw [set_self]
    exact h
  simp only [read, if_true, hm]
  rw [set_self]

end Architecture

/-- What the routine of an instruction does. -/
inductive Task
  | compute (m : Microcode) (dest operand : Register)
  | load (dest address : Register)
  | store (source address : Register)
  | jump
  | nothing

def Instruction.task? : Instruction → Option Task
  | register .aopr _ d s m => some (.compute m d s)
  | register .loadr _ d s _ => some (.load d s)
  | register .storr _ d s _ => some (.store d s)
  | immediate .aopi _ d m _ => some (.compute m d .irb)
  | immediate .load _ d _ _ => some (.load d .irb)
  | immediate .store _ d _ _ => some (.store d .irb)
  | jump .nop _ _ => some .nothing
  | jump .jmp _ _ => some .jump
  | jump .b _ _ => some .jump
  | _ => none

namespace Task

open MicroOp in
def micro : Task → List MicroOp
  | compute m d r => arithmetic m d r
  | load d r => move r .mar ++ MicroOp.load d
  | store d r => move r .mar ++ move d .mdr
  | jump => move .irb .pc
  | nothing => []

open Architecture in
def visible : Task → ArchitectureM Unit
  | compute m d r => operate m d r
  | load d r => send id r .mar >>= fun _ => send id .mdr d
  | store d r => send id r .mar >>= fun _ => send id d .mdr
  | jump => send id .irb .pc
  | nothing => pure ()

open Datapath MicroOp in
theorem seenAs_visible (t : Task) : SeenAs Idle architecture (runAll t.micro) t.visible := by
  have hm : ∀ r, latchFlags ∉ move r .mar := by simp [move]
  cases t with
  | compute m d r => exact seenAs_arithmetic m d r
  | load d r =>
    rw [micro, runAll_append]
    exact (seenAs_move r .mar).bind (keeps_idle_runAll (hm r)) fun _ => seenAs_load d
  | store d r =>
    rw [micro, runAll_append]
    exact (seenAs_move r .mar).bind (keeps_idle_runAll (hm r)) fun _ => seenAs_move d .mdr
  | jump => exact seenAs_move .irb .pc
  | nothing => exact fun _ _ => rfl

end Task

theorem Instruction.routine?_eq_map (i : Instruction) : i.routine? = i.task?.map Task.micro := by
  cases i with
  | register o => cases o <;> rfl
  | immediate o => cases o <;> rfl
  | jump o => cases o <;> rfl

theorem Instruction.isSome_task? {i : Instruction} (h : i.isWellFormed = true) :
    i.task?.isSome = i.opcode.isImplemented := by
  rw [← routine?_isSome h, routine?_eq_map, Option.isSome_map]

namespace Architecture

variable (s : Architecture)

/-- The memory data register holds the word at the address in the memory address register. -/
def IsOpen : Prop :=
  s.memory.get? (s.registers .mar) = some (s.registers .mdr)

/-- The word that a register gives when it is read, if it can be. The memory data register gives
the one at the address in the memory address register. -/
def operand? (r : Register) : Option Word :=
  if r = .mdr then s.memory.get? (s.registers .mar) else some (s.registers r)

def deliver (r : Register) (v : Word) : Architecture :=
  { s.set r v with
    memory := if r = .mdr then s.memory.put (s.registers .mar) v else s.memory }

variable {s}

theorem set_registers (r : Register) : s.set r (s.registers r) = s := by
  simp only [set, Function.update_eq_self]

theorem operand?_of_ne {r : Register} (h : r ≠ .mdr) : s.operand? r = some (s.registers r) :=
  if_neg h

theorem read_of_operand?_eq_some {r : Register} {v : Word} (h : s.operand? r = some v) :
    read r s = .ok v (s.set r v) := by
  by_cases hr : r = .mdr
  · subst hr
    rw [operand?, if_pos rfl] at h
    simp only [read, if_true, h]
  · rw [operand?_of_ne hr] at h
    cases h
    rw [read_of_ne_mdr s hr, set_registers]

theorem read_of_operand?_eq_none {r : Register} (h : s.operand? r = none) :
    read r s = .error (.address ⟨s.registers .mar⟩) s := by
  by_cases hr : r = .mdr
  · subst hr
    rw [operand?, if_pos rfl] at h
    simp only [read, if_true, h]
  · rw [operand?_of_ne hr] at h
    cases h

theorem accessed_mar (a v : Word) : (s.accessed a v).registers .mar = a := by
  rw [accessed, set_of_ne _ (by decide), set_self]

theorem accessed_mdr (a v : Word) : (s.accessed a v).registers .mdr = v :=
  set_self _ .mdr v

theorem accessed_of_ne {r : Register} (ha : r ≠ .mar) (hd : r ≠ .mdr) (a v : Word) :
    (s.accessed a v).registers r = s.registers r := by
  rw [accessed, set_of_ne _ hd, set_of_ne _ ha]

theorem deliver_accessed (a w v : Word) :
    (s.accessed a w).deliver .mdr v = { s.accessed a v with memory := s.memory.put a v } := by
  have hs : (s.accessed a w).set .mdr v = s.accessed a v := set_set ..
  rw [deliver, if_pos rfl, hs, accessed_mar]
  rfl

theorem isOpen_accessed {a v : Word} (h : s.memory.get? a = some v) : (s.accessed a v).IsOpen := h

theorem fetch?_eq_some {p : WordPair} :
    s.fetch? = some p ↔
      s.memory.get? s.pc = some p.low ∧ s.memory.get? (s.pc + 1) = some p.high := by
  obtain ⟨low, high⟩ := p
  rw [fetch?]
  cases s.memory.get? s.pc <;> cases s.memory.get? (s.pc + 1) <;> simp

theorem isOpen_fetched {p : WordPair} (h : s.fetch? = some p) : (s.fetched p).IsOpen :=
  (fetch?_eq_some.mp h).2

theorem IsOpen.read (h : s.IsOpen) (r : Register) :
    Architecture.read r s = .ok (s.registers r) s := by
  by_cases hr : r = .mdr
  · subst hr
    have hm : s.memory.get? (s.registers .mar) = some (s.registers .mdr) := h
    simp only [Architecture.read, if_true, hm, set_registers]
  · exact s.read_of_ne_mdr hr

theorem IsOpen.holds (h : s.IsOpen) : s.memory.holds (s.registers .mar) = true :=
  AddressSpace.holds_of_get?_eq_some h

/-- While the memory is open, only a constant refuses a word. -/
theorem IsOpen.outcome_write (h : s.IsOpen) (r : Register) (v : Word) :
    outcome (write r v s) =
      if r.isConstant then .error (.fabric (.access ⟨.register r⟩)) else .ok (s.deliver r v) := by
  cases hc : r.isConstant with
  | true =>
    rw [write_constant s hc]
    rfl
  | false =>
    by_cases hr : r = .mdr
    · subst hr
      simp only [write, Register.isConstant, deliver, h.holds, Bool.false_eq_true, if_false,
        if_true]
      rfl
    · rw [write_plain s hc hr]
      simp only [deliver, if_neg hr]
      rfl

variable (s)

def fill (dest : Register) (a : Word) : Except MachineError Architecture :=
  match s.memory.get? a with
  | none => .error (.address ⟨a⟩)
  | some v =>
    if dest.isConstant then .error (.fabric (.access ⟨.register dest⟩))
    else .ok ((s.accessed a v).deliver dest v)

variable {s}

theorem fill_of_none {dest : Register} {a : Word} (h : s.memory.get? a = none) :
    s.fill dest a = .error (.address ⟨a⟩) := by
  rw [fill, h]

theorem fill_of_some {dest : Register} {a v : Word} (h : s.memory.get? a = some v)
    (hd : dest.isConstant = false) : s.fill dest a = .ok ((s.accessed a v).deliver dest v) := by
  simp only [fill, h, hd, Bool.false_eq_true, if_false]

variable (s)

/-- Stores a register at an address. The memory registers are read when the address is there. -/
def spill (source : Register) (a : Word) : Except MachineError Architecture :=
  match s.memory.get? a with
  | none => .error (.address ⟨a⟩)
  | some v => .ok ((s.accessed a v).deliver .mdr ((s.accessed a v).registers source))

def combine (m : Microcode) (dest operand : Register) : Except MachineError Architecture :=
  let r := m.compute (s.registers dest) (s.registers operand)
  if dest.isConstant then .error (.fabric (.access ⟨.register dest⟩))
  else .ok (({ s with flags := r.2 } : Architecture).deliver dest r.1)

variable {s}

theorem send_mar {f : Word → Word} {r : Register} (h : read r s = .ok (s.registers r) s) :
    send f r .mar s = .ok () (s.set .mar (f (s.registers r))) := by
  rw [send, bind_of_ok h, write_plain s rfl (by decide)]

theorem outcome_load {f : Word → Word} {r : Register} (dest : Register)
    (h : read r s = .ok (s.registers r) s) :
    outcome ((send f r .mar >>= fun _ => send id .mdr dest) s) =
      s.fill dest (f (s.registers r)) := by
  rw [bind_of_ok (send_mar h), send, fill]
  cases hm : s.memory.get? (f (s.registers r)) with
  | none =>
    rw [bind_of_error (read_mdr_of_none s hm)]
    rfl
  | some v =>
    rw [bind_of_ok (read_mdr_of_some s hm)]
    exact (isOpen_accessed hm).outcome_write dest v

theorem write_mdr_set_mar {a : Word} (v w : Word) (h : s.memory.holds a = true) :
    write .mdr v (s.set .mar a) = .ok () ((s.accessed a w).deliver .mdr v) := by
  have hm : (s.set .mar a).memory.holds ((s.set .mar a).registers .mar) = true := by
    rw [set_self]
    exact h
  simp only [write, Register.isConstant, hm, Bool.false_eq_true, if_false, if_true, deliver,
    accessed, set_set]
  rfl

theorem write_mdr_of_none {a : Word} (v : Word) (h : s.memory.get? a = none) :
    write .mdr v (s.set .mar a) = .error (.address ⟨a⟩) (s.set .mar a) := by
  have hm : (s.set .mar a).memory.holds ((s.set .mar a).registers .mar) = false := by
    rw [set_self]
    exact AddressSpace.holds_of_get?_eq_none h
  simp only [write, Register.isConstant, hm, Bool.false_eq_true, if_false, if_true]
  rw [set_self]

theorem outcome_store {r : Register} (source : Register) (h : read r s = .ok (s.registers r) s) :
    outcome ((send id r .mar >>= fun _ => send id source .mdr) s) =
      s.spill source (s.registers r) := by
  rw [bind_of_ok (send_mar h), send, spill, id]
  cases hm : s.memory.get? (s.registers r) with
  | none =>
    by_cases hs : source = .mdr
    · subst hs
      rw [bind_of_error (read_mdr_of_none s hm)]
      rfl
    · rw [bind_of_ok (read_of_ne_mdr _ hs), write_mdr_of_none _ hm]
      rfl
  | some w =>
    by_cases hs : source = .mdr
    · subst hs
      rw [bind_of_ok (read_mdr_of_some s hm)]
      exact (isOpen_accessed hm).outcome_write .mdr _
    · have hh : s.memory.holds (s.registers r) = true := AddressSpace.holds_of_get?_eq_some hm
      have hv : (s.accessed (s.registers r) w).registers source =
          (s.set .mar (s.registers r)).registers source := set_of_ne _ hs w
      rw [bind_of_ok (read_of_ne_mdr _ hs), write_mdr_set_mar _ w hh, outcome_ok, id, ← hv]

theorem outcome_operate (h : s.IsOpen) (m : Microcode) (dest operand : Register) :
    outcome (operate m dest operand s) = s.combine m dest operand := by
  rw [operate, bind_of_ok (h.read dest), bind_of_ok (h.read operand), bind_modify]
  have ho : ∀ f, ({ s with flags := f } : Architecture).IsOpen := fun _ => h
  exact (ho _).outcome_write dest _

end Architecture

namespace MicroOp

open Datapath

variable {d : Datapath}

theorem outcome_load {ops : List MicroOp} {f : Word → Word} {r : Register} (dest : Register)
    (hd : d.Idle) (hl : latchFlags ∉ ops)
    (hs : SeenAs Idle architecture (runAll ops) (Architecture.send f r .mar)) (hr : r ≠ .mdr) :
    outcome (seen architecture (runAll (ops ++ load dest) d)) =
      d.architecture.fill dest (f (d.registers.get r)) := by
  rw [runAll_append, hs.bind (keeps_idle_runAll hl) (fun _ => seenAs_load dest) d hd]
  exact Architecture.outcome_load dest (d.architecture.read_of_ne_mdr hr)

theorem outcome_fetchFirst (hd : d.Idle) :
    outcome (seen architecture (runAll fetchFirst d)) =
      d.architecture.fill .ira d.architecture.pc := by
  rw [fetchFirst, outcome_load .ira hd (by simp [move]) (seenAs_move .pc .mar) (by decide)]
  rfl

theorem outcome_fetchSecond (hd : d.Idle) :
    outcome (seen architecture (runAll fetchSecond d)) =
      d.architecture.fill .irb (d.architecture.pc + 1) := by
  rw [fetchSecond, outcome_load .irb hd (by simp [increment]) (seenAs_increment .pc .mar)
    (by decide)]
  rfl

theorem outcome_passInstruction (hd : d.Idle) :
    outcome (seen architecture (runAll passInstruction d)) =
      .ok (d.architecture.set .pc (d.architecture.pc + 2)) := by
  let s := d.architecture
  have hs := seenAs_increment .pc .pc
  have h₁ : Architecture.send (· + 1) .pc .pc s = .ok () (s.set .pc (s.pc + 1)) :=
    s.send_plain (by decide) rfl (by decide) _
  have h₂ : Architecture.send (· + 1) .pc .pc (s.set .pc (s.pc + 1)) =
      .ok () (s.set .pc (s.pc + 1 + 1)) := by
    rw [Architecture.send_plain _ (by decide) rfl (by decide), Architecture.set_self,
      Architecture.set_set]
  have hk : Keeps Idle (runAll (increment .pc .pc)) := keeps_idle_runAll (by simp [increment])
  rw [passInstruction, runAll_append, hs.bind hk (fun _ => hs) d hd, bind_of_ok h₁, h₂, outcome_ok,
    UInt32.add_assoc]
  rfl

end MicroOp

/-- What becomes of a task while the memory is open. -/
def Task.outcome (s : Architecture) : Task → Except MachineError Architecture
  | compute m d r => s.combine m d r
  | load d r => s.fill d (s.registers r)
  | store d r => s.spill d (s.registers r)
  | jump => .ok (s.set .pc (s.registers .irb))
  | nothing => .ok s

theorem Task.outcome_visible {s : Architecture} (h : s.IsOpen) (t : Task) :
    Effect.outcome (t.visible s) = t.outcome s := by
  cases t with
  | compute m d r => exact Architecture.outcome_operate h m d r
  | load d r => exact Architecture.outcome_load d (h.read r)
  | store d r => exact Architecture.outcome_store d (h.read r)
  | jump =>
    rw [visible, s.send_plain (by decide) rfl (by decide)]
    rfl
  | nothing => rfl

/-- What becomes of an instruction in the execute phase, while the memory is open. -/
def Architecture.outcome (s : Architecture) (i : Instruction) : Except MachineError Architecture :=
  match i.condition.evaluate s.flags with
  | .error e => .error (.decode e)
  | .ok false => .ok s
  | .ok true =>
    match i.task? with
    | none => .error (.unimplemented i.opcode)
    | some t => t.outcome s

theorem Register.ne_mdr {r : Register} (h : r.isMemoryRegister = false) : r ≠ .mdr := by
  rintro rfl
  cases h

namespace Architecture

variable {s : Architecture} {d r : Register}

theorem deliver_of_ne_mdr (h : d ≠ .mdr) (v : Word) : s.deliver d v = s.set d v := by
  rw [deliver, if_neg h]
  rfl

theorem toOption_combine (h : d ≠ .mdr) (m : Microcode) (r : Register) :
    (s.combine m d r).toOption = s.compute? m d (s.registers r) := by
  rw [combine, compute?]
  split
  · rfl
  · rw [deliver_of_ne_mdr h]
    rfl

theorem toOption_fill (h : d ≠ .mdr) (a : Word) : (s.fill d a).toOption = s.load? d a := by
  rw [fill, load?]
  cases s.memory.get? a with
  | none => cases d.isConstant <;> rfl
  | some v =>
    simp only [Option.map_some, deliver_of_ne_mdr h]
    split <;> rfl

theorem toOption_spill (h : r.isMemoryRegister = false) (a : Word) :
    (s.spill r a).toOption = s.store? r a := by
  have hd : r ≠ .mdr := r.ne_mdr h
  have ha : r ≠ .mar := by rintro rfl; cases h
  rw [spill, store?]
  cases hm : s.memory.get? a with
  | none =>
    rw [AddressSpace.holds_of_get?_eq_none hm, if_neg Bool.false_ne_true]
    rfl
  | some w =>
    simp only [accessed_of_ne ha hd, deliver_accessed]
    rw [AddressSpace.holds_of_get?_eq_some hm, if_pos rfl]
    rfl

theorem toOption_outcome {i : Instruction} (hi : i.encode.high = s.registers .irb)
    (hm : i.namesMemoryRegister = false) : (s.outcome i).toOption = s.conditionally? i := by
  rw [outcome, conditionally?]
  cases i.condition.evaluate s.flags with
  | error e => rfl
  | ok holds =>
    cases holds with
    | false => rfl
    | true =>
      cases i with
      | register o c dest src m =>
        obtain ⟨hd, -⟩ := Bool.or_eq_false_iff.mp hm
        cases o with
        | aopr => exact toOption_combine (dest.ne_mdr hd) m src
        | loadr => exact toOption_fill (dest.ne_mdr hd) (s.registers src)
        | storr => exact toOption_spill hd (s.registers src)
        | _ => rfl
      | immediate o c dest m v =>
        obtain rfl : v = s.registers .irb := hi
        cases o with
        | aopi => exact toOption_combine (dest.ne_mdr hm) m .irb
        | load => exact toOption_fill (dest.ne_mdr hm) (s.registers .irb)
        | store => exact toOption_spill hm (s.registers .irb)
        | _ => rfl
      | jump o c t =>
        obtain rfl : t = s.registers .irb := hi
        cases o <;> rfl

end Architecture

end X25
