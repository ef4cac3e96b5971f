import Mathlib.Logic.Function.Basic
import X25.Proofs.Machine.Alu
import X25.Proofs.Machine.Transfer

/-! # The programmer's view

A program sees the registers, the latched flags and the memory; the operands of the arithmetic
unit, the sink and the wiring of the buses are hidden. While flags are not being latched, each part
of a microprogram is seen as one transfer between registers.
-/

namespace X25

structure Architecture where
  registers : Register → Word
  flags : Flags
  memory : AddressSpace

abbrev ArchitectureM := EStateM MachineError Architecture

namespace Architecture

def set (s : Architecture) (r : Register) (v : Word) : Architecture :=
  { s with registers := Function.update s.registers r v }

/-- Reads a register; the memory data register is loaded from memory first. -/
def read (r : Register) : ArchitectureM Word := fun s =>
  if r = .mdr then
    match s.memory.get? (s.registers .mar) with
    | some v => .ok v (s.set .mdr v)
    | none => .error (.address ⟨s.registers .mar⟩) s
  else .ok (s.registers r) s

/-- Writes a register unless it is constant; the memory data register is stored to memory too. -/
def write (r : Register) (v : Word) : ArchitectureM Unit := fun s =>
  if r.isConstant then .error (.fabric (.access ⟨.register r⟩)) s
  else if r = .mdr then
    if s.memory.holds (s.registers .mar) then
      .ok () { s.set .mdr v with memory := s.memory.put (s.registers .mar) v }
    else .error (.address ⟨s.registers .mar⟩) s
  else .ok () (s.set r v)

def send (f : Word → Word) (source dest : Register) : ArchitectureM Unit := do
  write dest (f (← read source))

/-- Computes from a register and an operand into the register, and takes the flags over. The first
operand is read first, and the flags are taken before the register is written. -/
def operate (m : Microcode) (dest operand : Register) : ArchitectureM Unit := do
  let x ← read dest
  let y ← read operand
  modify fun s => { s with flags := (m.compute x y).2 }
  write dest (m.compute x y).1

end Architecture

theorem RegisterFile.get_put_eq_update (f : RegisterFile) (r : Register) (v : Word) :
    (f.put r v).get = Function.update f.get r v := by
  funext s
  rw [get_put, Function.update_apply]
  simp only [eq_comm]

theorem RegisterFile.get_with_void (f : RegisterFile) (v : Word) :
    { f with void := v }.get = f.get := by
  funext s
  cases s <;> rfl

namespace Datapath

open Effect

def architecture (d : Datapath) : Architecture :=
  ⟨d.registers.get, d.alu.flags, d.memory⟩

def Idle (d : Datapath) : Prop :=
  d.alu.latching = false

theorem architecture_put (d : Datapath) (r : Register) (v : Word) :
    { d with registers := d.registers.put r v }.architecture = d.architecture.set r v := by
  simp only [architecture, Architecture.set, RegisterFile.get_put_eq_update]

theorem seen_read (r : Register) (d : Datapath) :
    seen architecture (read (.register r) d) = Architecture.read r d.architecture := by
  obtain ⟨he, hr⟩ | ⟨v, he, rfl, hm⟩ | ⟨he, rfl, hm⟩ := read_register_cases r d <;> rw [he]
  · simp only [Architecture.read, if_neg hr]; rfl
  · have hm' : d.architecture.memory.get? (d.architecture.registers .mar) = some v := hm
    simp only [Architecture.read, if_true, hm', seen_ok, architecture_put]
  · have hm' : d.architecture.memory.get? (d.architecture.registers .mar) = none := hm
    simp only [Architecture.read, if_true, hm']; rfl

theorem seen_write_mdr (v : Word) (d : Datapath) :
    seen architecture (write (.register .mdr) v d) = Architecture.write .mdr v d.architecture := by
  cases hm : d.memory.holds d.registers.mar with
  | true =>
    have hm' : d.architecture.memory.holds (d.architecture.registers .mar) = true := hm
    rw [write_mdr_of_ok (AddressSpace.store_of_holds hm v)]
    simp only [Architecture.write, Register.isConstant, Bool.false_eq_true, if_false, if_true, hm',
      seen_ok, ← architecture_put]
    rfl
  | false =>
    have hm' : d.architecture.memory.holds (d.architecture.registers .mar) = false := hm
    rw [write_mdr_of_error (AddressSpace.store_of_not_holds hm v)]
    simp only [Architecture.write, Register.isConstant, Bool.false_eq_true, if_false, if_true, hm']
    rfl

theorem seen_write (r : Register) (v : Word) (d : Datapath) :
    seen architecture (write (.register r) v d) = Architecture.write r v d.architecture := by
  obtain ⟨he, hc⟩ | ⟨he, hc, hr⟩ | ⟨_, -, rfl, -⟩ | ⟨_, _, -, rfl, -⟩ := write_register_cases r v d
  · rw [he]
    simp only [Architecture.write, hc, if_true]
    rfl
  · rw [he]
    simp only [Architecture.write, hc, if_neg hr, Bool.false_eq_true, if_false, seen_ok,
      architecture_put]
  · exact seen_write_mdr v d
  · exact seen_write_mdr v d

theorem alu_of_read {r : Register} {v : Word} {d d' : Datapath}
    (h : read (.register r) d = .ok v d') : d'.alu = d.alu := by
  obtain ⟨he, -⟩ | ⟨w, he, -⟩ | ⟨he, -⟩ := read_register_cases r d <;> rw [he] at h <;>
    cases h <;> rfl

theorem Idle.of_read {r : Register} {v : Word} {d d' : Datapath} (hd : Idle d)
    (h : read (.register r) d = .ok v d') : Idle d' := by
  rw [Idle, alu_of_read h]
  exact hd

end Datapath

namespace MicroOp

open Effect Datapath

theorem architecture_fedA {d : Datapath} (h : d.Idle) (r : Register) (v : Word) :
    (fedA r v d).architecture = d.architecture := by
  simp only [fedA, architecture, Alu.flags_feedA h]

theorem architecture_fedB {d : Datapath} (h : d.Idle) (r : Register) (v : Word) :
    (fedB r v d).architecture = d.architecture := by
  simp only [fedB, architecture, Alu.flags_feedB h]

theorem architecture_delivered (r : Register) (d : Datapath) :
    (delivered r d).architecture = d.architecture := by
  simp only [delivered, architecture, RegisterFile.get_with_void]

theorem seen_deliver (r : Register) (d : Datapath) :
    seen architecture ((deliver r).run d) = Architecture.write r d.alu.out d.architecture := by
  have hw := seen_write r d.alu.out d
  rw [run_deliver, bind_get, ← hw]
  cases h : write (.register r) d.alu.out d with
  | ok u d' =>
    rw [bind_of_ok h]
    exact congrArg (EStateM.Result.ok u) (architecture_delivered r d')
  | error e d' => rw [bind_of_error h]

/-- A word that goes through the unit unlatched is seen as sent between registers. -/
theorem seenAs_send {m : Microcode} {feed : MicroOp} {fed : Word → Datapath → Datapath}
    {f : Word → Word} {source : Register} (dest : Register)
    (hf : feed.run = (Datapath.read (.register source) >>= fun v => modify (fed v)))
    (ho : ∀ v d, d.alu.operation = m → (fed v d).alu.out = f v)
    (ha : ∀ v d, Idle d → (fed v d).architecture = d.architecture) :
    SeenAs Idle architecture (runAll [operate m, feed, deliver dest])
      (Architecture.send f source dest) := by
  intro d hd
  let d₁ : Datapath := { d with alu := { d.alu with operation := m } }
  have hd₁ : Idle d₁ := hd
  have hm : (operate m).run d = .ok () d₁ := rfl
  have hr : seen architecture (Datapath.read (.register source) d₁) =
      Architecture.read source d.architecture := seen_read source d₁
  rw [runAll_cons, bind_of_ok hm, runAll_cons, runAll_singleton, hf, bind_assoc]
  cases h : Datapath.read (.register source) d₁ with
  | ok v d₂ =>
    have hi : Idle d₂ := hd₁.of_read h
    have hv : d₂.alu.operation = m := by rw [alu_of_read h]
    rw [h] at hr
    rw [bind_of_ok h, bind_modify, seen_deliver, ho v d₂ hv, ha v d₂ hi, Architecture.send,
      bind_of_ok hr.symm]
  | error e d₂ =>
    rw [h] at hr
    rw [bind_of_error h, Architecture.send, bind_of_error hr.symm, seen_error]

theorem seenAs_move (source dest : Register) :
    SeenAs Idle architecture (runAll (move source dest)) (Architecture.send id source dest) :=
  seenAs_send dest (run_feedA source)
    (fun v d h => Alu.out_feedA (by rw [h]; exact Microcode.compute_transferA) v)
    (fun v _ h => architecture_fedA h source v)

theorem seenAs_increment (source dest : Register) :
    SeenAs Idle architecture (runAll (increment source dest))
      (Architecture.send (· + 1) source dest) :=
  seenAs_send dest (run_feedA source)
    (fun v d h => Alu.out_feedA (f := (· + 1)) (by rw [h]; exact Microcode.compute_incrementA) v)
    (fun v _ h => architecture_fedA h source v)

theorem seenAs_load (dest : Register) :
    SeenAs Idle architecture (runAll (load dest)) (Architecture.send id .mdr dest) :=
  seenAs_send dest (run_feedB .mdr)
    (fun v d h => Alu.out_feedB (by rw [h]; exact Microcode.compute_transferB) v)
    (fun v _ h => architecture_fedB h .mdr v)

theorem seen_feedB_deliver {m : Microcode} {x : Word} (dest operand : Register) {d : Datapath}
    (ha : d.alu.a = x) (hm : d.alu.operation = m) (hl : d.alu.latching = true) :
    seen architecture (runAll [feedB operand, deliver dest] d) =
      (Architecture.read operand >>= fun y =>
        modify (fun s => { s with flags := (m.compute x y).2 }) >>= fun _ =>
          Architecture.write dest (m.compute x y).1) d.architecture := by
  have hs := seen_read operand d
  rw [runAll_cons, runAll_singleton, run_feedB, bind_assoc]
  cases h : Datapath.read (.register operand) d with
  | error e d' =>
    rw [h] at hs
    rw [bind_of_error h, bind_of_error hs.symm, seen_error]
  | ok y d' =>
    rw [h] at hs
    have hu : d'.alu.feedB y =
        ⟨x, y, (m.compute x y).1, m, (m.compute x y).2, true⟩ := by
      rw [alu_of_read h]
      simp only [Alu.feedB, Alu.recompute, ha, hm, hl, if_true]
    have hf : (fedB operand y d').architecture =
        { d'.architecture with flags := (m.compute x y).2 } := by
      simp only [fedB, architecture, hu]
    have ho : (fedB operand y d').alu.out = (m.compute x y).1 := by simp only [fedB, hu]
    rw [bind_of_ok h, bind_modify, seen_deliver, hf, ho, bind_of_ok hs.symm, bind_modify]

/-- An operation is seen as a whole: while its flags are latched, the unit is not idle. -/
theorem seenAs_arithmetic (m : Microcode) (dest operand : Register) :
    SeenAs Idle architecture (runAll (arithmetic m dest operand))
      (Architecture.operate m dest operand) := by
  intro d hd
  let d₁ : Datapath := { d with alu := { d.alu with operation := m } }
  have hd₁ : Idle d₁ := hd
  have hm : (operate m).run d = .ok () d₁ := rfl
  have hr : seen architecture (Datapath.read (.register dest) d₁) =
      Architecture.read dest d.architecture := seen_read dest d₁
  rw [arithmetic, runAll_cons, bind_of_ok hm, runAll_cons, run_feedA, bind_assoc,
    Architecture.operate]
  cases h : Datapath.read (.register dest) d₁ with
  | error e d₂ =>
    rw [h] at hr
    rw [bind_of_error h, bind_of_error hr.symm, seen_error]
  | ok x d₂ =>
    rw [h] at hr
    let d₃ : Datapath :=
      { fedA dest x d₂ with alu := { (fedA dest x d₂).alu with latching := true } }
    have hl : latchFlags.run (fedA dest x d₂) = .ok () d₃ := rfl
    have ho : d₃.alu.operation = m := by
      show d₂.alu.operation = m
      rw [alu_of_read h]
    have ha : d₃.architecture = d₂.architecture := architecture_fedA (hd₁.of_read h) dest x
    rw [bind_of_ok h, bind_modify, runAll_cons, bind_of_ok hl,
      seen_feedB_deliver dest operand (x := x) rfl ho rfl, ha, bind_of_ok hr.symm]

end MicroOp

end X25
